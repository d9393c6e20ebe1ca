/-
Values that are written without quotation marks: truth values, numbers, dates and times.
-/

import LadderLogic.Datum
import LadderLogic.Number.Literal
import LadderLogic.Toml.Parsed

namespace LadderLogic.Toml

/-! ## Numbers -/

/-- Digits with single underscores between them, without the underscores. -/
def joinedDigits? (isDigit : Char → Bool) : List Char → Option (List Char)
  | [] => none
  | [c] => if isDigit c then some [c] else none
  | c :: '_' :: rest =>
    if isDigit c then (joinedDigits? isDigit rest).map (c :: ·) else none
  | c :: rest => if isDigit c then (joinedDigits? isDigit rest).map (c :: ·) else none

/-- The digits before the point, which begin with a zero only if that is all. -/
def wholeDigits? (text : List Char) : Option (List Char) :=
  match joinedDigits? Char.isDigit text with
  | some ('0' :: _ :: _) => none
  | digits => digits

/-- The sign of a number, and what follows it. -/
def splitSign : List Char → Bool × List Char
  | '+' :: rest => (false, rest)
  | '-' :: rest => (true, rest)
  | text => (false, text)

/-- An integer of any size. -/
def integer? (text : List Char) : Option Int :=
  match text with
  | '0' :: 'x' :: rest => (joinedDigits? Digit.isHex rest).map fun ds => Digit.number 16 ds
  | '0' :: 'o' :: rest =>
    (joinedDigits? (fun c => '0' ≤ c && c ≤ '7') rest).map fun ds => Digit.number 8 ds
  | '0' :: 'b' :: rest =>
    (joinedDigits? (fun c => c == '0' || c == '1') rest).map fun ds => Digit.number 2 ds
  | text =>
    let (negative, text) := splitSign text
    (wholeDigits? text).map fun ds =>
      if negative then -(Digit.number 10 ds : Int) else Digit.number 10 ds

/-- The value of an integer, which has at most 128 bits, with or without a sign. -/
def integerValue (n : Int) : Datum :=
  if -0x80000000000000000000000000000000 ≤ n && n ≤ 0xFFFFFFFFFFFFFFFFFFFFFFFFFFFFFFFF then
    .integer n
  else .overflow

/-- A digit, or an underscore between digits. -/
def isDigitPart (c : Char) : Bool := c.isDigit || c == '_'

/-- The exponent of a number; without one it is zero. -/
def exponent? : List Char → Option Int
  | [] => some 0
  | c :: rest =>
    if c = 'e' ∨ c = 'E' then
      let (negative, text) := splitSign rest
      (joinedDigits? Char.isDigit text).map fun ds =>
        if negative then -(Digit.number 10 ds : Int) else Digit.number 10 ds
    else none

/-- A number with a point or an exponent. -/
def decimal? (text : List Char) : Option Literal := do
  let (negative, text) := splitSign text
  let whole ← wholeDigits? (text.takeWhile isDigitPart)
  match text.dropWhile isDigitPart with
  | [] => none
  | '.' :: rest =>
    let fraction ← joinedDigits? Char.isDigit (rest.takeWhile isDigitPart)
    let exponent ← exponent? (rest.dropWhile isDigitPart)
    some (.ofParts negative whole fraction exponent)
  | rest =>
    let exponent ← exponent? rest
    some (.ofParts negative whole [] exponent)

/-- The value of a number, unless it goes beyond the largest float. -/
def decimalValue (number : Literal) : Datum :=
  if number.toFloat.isFinite then .float number.toFloat else .overflow

/-- A float: a number, or one of the special values. -/
def float? (text : List Char) : Option Datum :=
  match splitSign text with
  | (negative, ['i', 'n', 'f']) => some (.float (if negative then -1 / 0 else 1 / 0))
  | (_, ['n', 'a', 'n']) => some (.float (0 / 0))
  | _ => (decimal? text).map decimalValue

/-! ## Dates and times -/

/-- A number of two digits in the given range. -/
def isTwoDigits (first last : Nat) (tens ones : Char) : Bool :=
  tens.isDigit && ones.isDigit
    && first ≤ Digit.number 10 [tens, ones] && Digit.number 10 [tens, ones] ≤ last

/-- The number of days in a month. -/
def daysIn (year month : Nat) : Nat :=
  if month = 2 then
    if year % 4 = 0 ∧ (year % 100 ≠ 0 ∨ year % 400 = 0) then 29 else 28
  else if month ∈ [4, 6, 9, 11] then 30
  else 31

/-- What follows a date. -/
def afterDate? : List Char → Option (List Char)
  | a :: b :: c :: d :: '-' :: m₁ :: m₀ :: '-' :: d₁ :: d₀ :: rest =>
    let year := [a, b, c, d]
    if year.all Char.isDigit && isTwoDigits 1 12 m₁ m₀
        && isTwoDigits 1 (daysIn (Digit.number 10 year) (Digit.number 10 [m₁, m₀])) d₁ d₀ then
      some rest
    else none
  | _ => none

/-- What follows the seconds of a time, which may have a fraction.  A minute may have a
second more. -/
def afterSeconds? : List Char → Option (List Char)
  | s₁ :: s₀ :: '.' :: digits =>
    if isTwoDigits 0 60 s₁ s₀ && digits.head?.any Char.isDigit then
      some (digits.dropWhile Char.isDigit)
    else none
  | s₁ :: s₀ :: rest => if isTwoDigits 0 60 s₁ s₀ then some rest else none
  | _ => none

/-- What follows a time of day.  The seconds may be left out. -/
def afterTime? : List Char → Option (List Char)
  | h₁ :: h₀ :: ':' :: m₁ :: m₀ :: rest =>
    if isTwoDigits 0 23 h₁ h₀ && isTwoDigits 0 59 m₁ m₀ then
      match rest with
      | ':' :: seconds => afterSeconds? seconds
      | rest => some rest
    else none
  | _ => none

/-- The distance of a time from universal time, or nothing. -/
def isZone : List Char → Bool
  | [] => true
  | [c] => c == 'Z' || c == 'z'
  | [sign, h₁, h₀, ':', m₁, m₀] =>
    (sign == '+' || sign == '-') && isTwoDigits 0 23 h₁ h₀ && isTwoDigits 0 59 m₁ m₀
  | _ => false

/-- A date, a time of day, or both. -/
def isMoment (text : List Char) : Bool :=
  match afterDate? text with
  | some [] => true
  | some (divider :: rest) =>
    (divider == 'T' || divider == 't' || divider == ' ') && (afterTime? rest).any isZone
  | none => afterTime? text == some []

/-! ## Values -/

/-- The value of a word. -/
def plainValue? (word : List Char) : Option Datum :=
  match word with
  | ['t', 'r', 'u', 'e'] => some (.bool true)
  | ['f', 'a', 'l', 's', 'e'] => some (.bool false)
  | word =>
    match integer? word with
    | some n => some (integerValue n)
    | none =>
      match float? word with
      | some value => some value
      | none => if isMoment word then some .moment else none

/-- A character of a word. -/
def isWordCharacter (c : Char) : Bool :=
  c.isAlphanum || c == '+' || c == '-' || c == '.' || c == '_' || c == ':'

/-- Reads a value that is a word.  A space may divide a date from a time of day. -/
def plain? (text : List Char) : Option (Parsed Datum text) :=
  let word := text.takeWhile isWordCharacter
  let p := skipWhile isWordCharacter text
  match h : p.rest with
  | ' ' :: c :: rest =>
    if c.isDigit && afterDate? word == some [] then
      let time := skipWhile isWordCharacter (c :: rest)
      have hle : time.rest.length ≤ text.length := by
        have h₁ := time.le
        have h₂ := p.le
        simp only [h, List.length_cons] at h₁ h₂
        omega
      (plainValue? (word ++ ' ' :: (c :: rest).takeWhile isWordCharacter)).map
        fun value => ⟨value, time.rest, hle⟩
    else (plainValue? word).map fun value => ⟨value, p.rest, p.le⟩
  | _ => (plainValue? word).map fun value => ⟨value, p.rest, p.le⟩

end LadderLogic.Toml
