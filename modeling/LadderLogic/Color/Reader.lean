/-
Reading colors.

A color is a number sign with hexadecimal digits, a name, or a function with channels.
White space and comments may stand between the parts of a function; a comment that is
not closed stops whatever comes next.  `Color.read` reads a whole text, without the
white space around it.
-/

import LadderLogic.Color.Basic
import LadderLogic.Color.Named
import LadderLogic.Number.Literal
import LadderLogic.Text.Blank

namespace LadderLogic

/-- Why a text is no color. -/
inductive ColorFault where
  | trailingText
  | wrongHexDigits
  | unknownForm
  | expectedArguments
  | unknownName
  | unknownComponent
  | expectedComma
  | unknownAngleUnit
  | unknownAngle
  | expectedSpaceName
  | unknownSpace
  | expectedClosing
deriving DecidableEq

/-- The wording of a fault. -/
def ColorFault.message : ColorFault → String
  | trailingText => "expected end of string"
  | wrongHexDigits => "wrong number of hex digits"
  | unknownForm => "unknown color syntax"
  | expectedArguments => "expected arguments"
  | unknownName => "unknown color identifier"
  | unknownComponent => "unknown color component"
  | expectedComma => "expected comma"
  | unknownAngleUnit => "unknown angle dimension"
  | unknownAngle => "unknown angle"
  | expectedSpaceName => "expected color space identifier"
  | unknownSpace => "unknown color space"
  | expectedClosing => "expected closing parenthesis"

/-- The scale of a function: the most of its first channel, and one percent of the others. -/
def ColorFunction.scale : ColorFunction → Float × Float
  | lab | lch => (100, 1.25)
  | oklab | oklch => (1, 0.004)

/-- A text that is no color, and why. -/
structure InvalidColor where
  text : String
  fault : ColorFault
deriving DecidableEq

/-- The wording, with the text that was given. -/
def InvalidColor.message (e : InvalidColor) : String :=
  "invalid color `" ++ e.text ++ "`: " ++ e.fault.message

namespace Color

/-! ## Blanks and comments -/

/-- What follows the end of a comment. -/
def afterComment : List Char → Option (List Char)
  | '*' :: '/' :: rest => some rest
  | _ :: rest => afterComment rest
  | [] => none

theorem length_afterComment {text rest : List Char} (h : afterComment text = some rest) :
    rest.length < text.length := by
  fun_induction afterComment text with
  | case1 tail =>
    obtain rfl := Option.some.inj h
    exact Nat.lt_succ_of_lt (Nat.lt_succ_self _)
  | case2 c tail _ ih => exact Nat.lt_succ_of_lt (ih h)
  | case3 => simp at h

/-- Moves over closed comments, and over the characters of a class between them. -/
def skip (p : Char → Bool) (text : List Char) : List Char :=
  match text with
  | [] => []
  | c :: rest =>
    if p c then skip p rest
    else if c = '/' ∧ rest.head? = some '*' then
      match h : afterComment rest.tail with
      | some after =>
        have := length_afterComment h
        have : rest.tail.length ≤ rest.length := by simp
        skip p after
      | none => text
    else text
termination_by text.length

/-- Moves over closed comments. -/
def skipComments (text : List Char) : List Char := skip (fun _ => false) text

/-- Moves over white space and closed comments. -/
def skipBlank (text : List Char) : List Char :=
  skip (fun c => c == ' ' || c == '\t' || c == '\r' || c == '\n') text

/-- An open comment comes next. -/
def atComment (text : List Char) : Bool := ['/', '*'].isPrefixOf text

/-! ## Numbers and identifiers -/

/-- The sign of a number, and what follows it. -/
def sign : List Char → Bool × List Char
  | '+' :: rest => (false, rest)
  | '-' :: rest => (true, rest)
  | text => (false, text)

/-- The fraction of a number, and what follows it.  A point without digits is none. -/
def fraction : List Char → List Char × List Char
  | '.' :: rest =>
    if rest.head?.any Char.isDigit then (rest.takeWhile Char.isDigit, rest.dropWhile Char.isDigit)
    else ([], '.' :: rest)
  | text => ([], text)

/-- The exponent of a number, and what follows it.  A letter without digits is none. -/
def exponent : List Char → Int × List Char
  | [] => (0, [])
  | c :: rest =>
    let (negative, digits) := sign rest
    if (c = 'e' ∨ c = 'E') ∧ digits.head?.any Char.isDigit then
      let value : Int := Digit.number 10 (digits.takeWhile Char.isDigit)
      (if negative then -value else value, digits.dropWhile Char.isDigit)
    else (0, c :: rest)

/-- Reads a number. -/
def number? (text : List Char) : Option (Float × List Char) :=
  let text := skipComments text
  if atComment text then none
  else
    let (negative, text) := sign text
    let whole := text.takeWhile Char.isDigit
    let (fraction, text) := fraction (text.dropWhile Char.isDigit)
    let (exponent, text) := exponent text
    if whole.isEmpty && fraction.isEmpty then none
    else some ((Literal.ofParts negative whole fraction exponent).toFloat, text)

/-- A letter, hyphen or underscore. -/
def isIdentifierStart (c : Char) : Bool := c.isAlpha || c == '_' || c == '-'

/-- Reads an identifier.  It does not begin with a digit, nor with a hyphen before a digit
or a second hyphen, and it is more than a hyphen. -/
def identifier? (text : List Char) : Option (String × List Char) :=
  let isPart (c : Char) : Bool := isIdentifierStart c || c.isDigit
  match text with
  | '-' :: c :: rest =>
    if isIdentifierStart c && c != '-' then
      some (String.ofList ('-' :: c :: rest.takeWhile isPart), rest.dropWhile isPart)
    else none
  | c :: rest =>
    if isIdentifierStart c && c != '-' then
      some (String.ofList (c :: rest.takeWhile isPart), rest.dropWhile isPart)
    else none
  | [] => none

/-- A part of a function. -/
inductive Component where
  | number (x : Float)
  | percentage (x : Float)
  | dimension (x : Float) (unit : String)
  | symbol (name : String)

/-- Reads a part of a function.  A unit stands directly behind its number. -/
def component? (text : List Char) : Option (Component × List Char) :=
  match number? text with
  | some (x, '%' :: rest) => some (.percentage x, rest)
  | some (x, rest) =>
    match identifier? rest with
    | some (unit, rest) => some (.dimension x unit, rest)
    | none => some (.number x, rest)
  | none => (identifier? (skipComments text)).map fun (name, rest) => (.symbol name, rest)

/-! ## Channels -/

/-- A reader of part of a color. -/
abbrev Reader := StateT (List Char) (Except ColorFault)

/-- Brings a number between two bounds. -/
def clamp (low high x : Float) : Float := if x < low then low else if high < x then high else x

/-- Reads the part after white space and comments. -/
def part (fault : ColorFault) : Reader Component := do
  match component? (skipBlank (← get)) with
  | some (c, rest) =>
    set rest
    return c
  | none => throw fault

/-- Reads a channel: a number or a percentage, to be scaled, or the word `none`. -/
def channel (scale percentScale : Float) : Reader (Option Float) := do
  match ← part .unknownComponent with
  | .number x => return some (x * scale)
  | .percentage x => return some (x * percentScale)
  | .symbol name => if name.toLower = "none" then return none else throw .unknownComponent
  | .dimension .. => throw .unknownComponent

/-- The number of degrees in a unit of angle. -/
def angleUnit? (name : String) : Option Float :=
  match name.toLower with
  | "deg" => some 1
  | "rad" => some (180 / 3.141592653589793)
  | "grad" => some 0.9
  | "turn" => some 360
  | _ => none

/-- Reads an angle, in degrees unless it has a unit. -/
def angle : Reader (Option Float) := do
  match ← part .unknownAngle with
  | .number x => return some x
  | .symbol name => if name.toLower = "none" then return none else throw .unknownAngle
  | .dimension x unit =>
    match angleUnit? unit with
    | some scale => return some (x * scale)
    | none => throw .unknownAngleUnit
  | .percentage _ => throw .unknownAngle

/-- Reads the given character, if it comes next after comments. -/
def mark (wanted : Char) : Reader Bool := do
  let text := skipComments (← get)
  match text with
  | c :: rest =>
    if c = wanted && !atComment text then
      set rest
      return true
    else
      set text
      return false
  | [] =>
    set text
    return false

/-- Moves over white space and comments. -/
def blanks : Reader Unit := modify skipBlank

/-- Reads the opacity behind its separator, if there is one, and the end of a function. -/
def closing (separator : Char) : Reader (Option Float) := do
  blanks
  let alpha ← if ← mark separator then
      let given ← channel 1 0.01
      pure (given.map (clamp 0 1))
    else pure (some 1)
  blanks
  if ← mark ')' then return alpha else throw .expectedClosing

/-- Channels of 64-bit floats, rounded. -/
def rounded (first second third alpha : Option Float) : Channels :=
  ⟨first.map Float.toFloat32, second.map Float.toFloat32, third.map Float.toFloat32,
    alpha.map Float.toFloat32⟩

/-! ## Notations -/

/-- Reads the arguments of `rgb`.  A comma after the first channel asks for one after the
second, and before the opacity. -/
def rgbArguments : Reader Color := do
  let byte : Reader (Option Float) := return (← channel (1 / 255) 0.01).map (clamp 0 1)
  let red ← byte
  blanks
  let commas ← mark ','
  let green ← byte
  blanks
  if commas then
    unless ← mark ',' do throw .expectedComma
  let blue ← byte
  let alpha ← closing (if commas then ',' else '/')
  return .rgb (rounded red green blue alpha)

/-- Reads the arguments of a function. -/
def functionArguments (f : ColorFunction) : Reader Color := do
  let (most, percent) := f.scale
  let lightness := (← channel 1 (0.01 * most)).map (clamp 0 most)
  match f with
  | .lab | .oklab =>
    let a ← channel 1 percent
    let b ← channel 1 percent
    return .function f (rounded lightness a b (← closing '/'))
  | .lch | .oklch =>
    let chroma := (← channel 1 percent).map fun x => if 0 < x then x else 0
    let hue ← angle
    return .function f (rounded lightness chroma hue (← closing '/'))

/-- Reads the arguments of `color`. -/
def spaceArguments : Reader Color := do
  blanks
  match identifier? (← get) with
  | none => throw .expectedSpaceName
  | some (name, rest) =>
    set rest
    match ColorSpace.ofName? name.toLower with
    | none => throw .unknownSpace
    | some found =>
      let first ← channel 1 0.01
      let second ← channel 1 0.01
      let third ← channel 1 0.01
      return .space found (rounded first second third (← closing '/'))

/-- Reads a function with the given arguments. -/
def call (arguments : Reader Color) : Reader Color := do
  match ← get with
  | '(' :: rest =>
    set rest
    arguments
  | _ => throw .expectedArguments

/-- Reads a color that is not written in hexadecimal digits. -/
def word : Reader Color := do
  match identifier? (← get) with
  | none => throw .unknownForm
  | some (name, rest) =>
    set rest
    match name.toLower with
    | "rgb" | "rgba" => call rgbArguments
    | "lab" => call (functionArguments .lab)
    | "lch" => call (functionArguments .lch)
    | "oklab" => call (functionArguments .oklab)
    | "oklch" => call (functionArguments .oklch)
    | "color" => call spaceArguments
    | name => if names.contains name then return .named name else throw .unknownName

/-- A channel from a byte. -/
def byteChannel (byte : Nat) : Option Float32 := some (Float32.ofNat byte * (1 / 255))

/-- The channels of a color in hexadecimal digits: one or two digits for each of three or
four channels. -/
def hexChannels? (digits : List Nat) : Option Channels :=
  match digits with
  | [r, g, b] => some ⟨byteChannel (17 * r), byteChannel (17 * g), byteChannel (17 * b),
      byteChannel 255⟩
  | [r, g, b, a] => some ⟨byteChannel (17 * r), byteChannel (17 * g), byteChannel (17 * b),
      byteChannel (17 * a)⟩
  | [r₁, r₀, g₁, g₀, b₁, b₀] => some ⟨byteChannel (16 * r₁ + r₀), byteChannel (16 * g₁ + g₀),
      byteChannel (16 * b₁ + b₀), byteChannel 255⟩
  | [r₁, r₀, g₁, g₀, b₁, b₀, a₁, a₀] => some ⟨byteChannel (16 * r₁ + r₀),
      byteChannel (16 * g₁ + g₀), byteChannel (16 * b₁ + b₀), byteChannel (16 * a₁ + a₀)⟩
  | _ => none

/-- Reads up to eight hexadecimal digits. -/
def hexadecimal : Reader Color := do
  let text ← get
  let digits := (text.take 8).takeWhile Digit.isHex
  set (text.drop digits.length)
  match hexChannels? (digits.map Digit.value) with
  | some channels => return .rgb channels
  | none => throw .wrongHexDigits

/-- Reads a color. -/
def anyForm : Reader Color := do
  match ← get with
  | '#' :: rest =>
    set rest
    hexadecimal
  | _ => word

/-- The color that a text stands for. -/
def read (text : String) : Except InvalidColor Color :=
  match anyForm.run (Text.trim text.toList) with
  | .ok (color, []) => .ok color
  | .ok (_, _ :: _) => .error ⟨text, .trailingText⟩
  | .error fault => .error ⟨text, fault⟩

end Color

end LadderLogic
