/-
Strings in quotation marks.

Between double marks a backslash begins an escape; between single marks everything is
taken as it stands.  Three marks open a string of several lines.
-/

import LadderLogic.Number.Digit
import LadderLogic.Toml.Parsed

namespace LadderLogic.Toml

/-! ## Escapes -/

/-- The character that a letter behind a backslash stands for. -/
def escape? : Char → Option Char
  | 'b' => some '\x08'
  | 't' => some '\t'
  | 'n' => some '\n'
  | 'f' => some '\x0c'
  | 'r' => some '\r'
  | 'e' => some '\x1b'
  | '"' => some '"'
  | '\\' => some '\\'
  | _ => none

/-- The character with a number in hexadecimal digits. -/
def numbered? (digits : List Char) : Option Char :=
  let n := Digit.number 16 digits
  if digits.all Digit.isHex && n.isValidChar then some (Char.ofNat n) else none

/-- Puts a character in front of the value. -/
def Parsed.cons {text rest : List Char} (c : Char) (p : Parsed (List Char) rest)
    (h : rest.length ≤ text.length) : Parsed (List Char) text :=
  ⟨c :: p.value, p.rest, Nat.le_trans p.le h⟩

/-! ## Strings on one line -/

/-- A string with escapes, from behind its opening mark. -/
def basic? : (text : List Char) → Option (Parsed (List Char) text)
  | [] => none
  | '"' :: rest => some ⟨[], rest, Nat.le_add_right _ 1⟩
  | '\\' :: 'x' :: a :: b :: rest => do
    let found ← numbered? [a, b]
    let body ← basic? rest
    some (body.cons found (Nat.le_add_right _ 4))
  | '\\' :: 'u' :: a :: b :: c :: d :: rest => do
    let found ← numbered? [a, b, c, d]
    let body ← basic? rest
    some (body.cons found (Nat.le_add_right _ 6))
  | '\\' :: 'U' :: a :: b :: c :: d :: e :: f :: g :: h :: rest => do
    let found ← numbered? [a, b, c, d, e, f, g, h]
    let body ← basic? rest
    some (body.cons found (Nat.le_add_right _ 10))
  | '\\' :: c :: rest => do
    let found ← escape? c
    let body ← basic? rest
    some (body.cons found (Nat.le_add_right _ 2))
  | c :: rest =>
    if isTextCharacter c && c ≠ '\\' then (basic? rest).map (·.cons c (length_le_cons c rest))
    else none

/-- A string without escapes, from behind its opening mark. -/
def literal? : (text : List Char) → Option (Parsed (List Char) text)
  | [] => none
  | '\'' :: rest => some ⟨[], rest, Nat.le_add_right _ 1⟩
  | c :: rest =>
    if isTextCharacter c then (literal? rest).map (·.cons c (length_le_cons c rest)) else none

/-! ## Strings of several lines -/

/-- Where a string of several lines stands. -/
inductive LineState where
  /-- In the text. -/
  | inText
  /-- Behind a backslash at the end of a line, with the line end still to come. -/
  | beforeBreak
  /-- Behind that line end, where spaces and further line ends do not count. -/
  | afterBreak

/-- A string of several lines with escapes, from behind its opening marks.  Up to two
marks may stand before the closing ones. -/
def longBasic? (state : LineState) : (text : List Char) → Option (Parsed (List Char) text)
  | [] => none
  | c :: rest =>
    match state with
    | .beforeBreak =>
      match c, rest with
      | '\n', rest => (longBasic? .afterBreak rest).map (·.widen (Nat.le_add_right _ 1))
      | '\r', '\n' :: rest => (longBasic? .afterBreak rest).map (·.widen (Nat.le_add_right _ 2))
      | c, rest =>
        if isSpace c then (longBasic? .beforeBreak rest).map (·.widen (Nat.le_add_right _ 1))
        else none
    | state =>
      let skipping := match state with
        | .afterBreak => true
        | _ => false
      match c, rest with
      | '"', '"' :: '"' :: '"' :: '"' :: rest => some ⟨['"', '"'], rest, Nat.le_add_right _ 5⟩
      | '"', '"' :: '"' :: '"' :: rest => some ⟨['"'], rest, Nat.le_add_right _ 4⟩
      | '"', '"' :: '"' :: rest => some ⟨[], rest, Nat.le_add_right _ 3⟩
      | '\\', 'x' :: a :: b :: rest => do
        let found ← numbered? [a, b]
        let body ← longBasic? .inText rest
        some (body.cons found (Nat.le_add_right _ 4))
      | '\\', 'u' :: a :: b :: c :: d :: rest => do
        let found ← numbered? [a, b, c, d]
        let body ← longBasic? .inText rest
        some (body.cons found (Nat.le_add_right _ 6))
      | '\\', 'U' :: a :: b :: c :: d :: e :: f :: g :: h :: rest => do
        let found ← numbered? [a, b, c, d, e, f, g, h]
        let body ← longBasic? .inText rest
        some (body.cons found (Nat.le_add_right _ 10))
      | '\\', c :: rest =>
        match escape? c with
        | some found => do
          let body ← longBasic? .inText rest
          some (body.cons found (Nat.le_add_right _ 2))
        | none => (longBasic? .beforeBreak (c :: rest)).map (·.widen (Nat.le_add_right _ 1))
      | '\r', '\n' :: rest => do
        let body ← longBasic? state rest
        if skipping then some (body.widen (Nat.le_add_right _ 2))
        else
          some ⟨'\r' :: '\n' :: body.value, body.rest,
            Nat.le_trans body.le (Nat.le_add_right _ 2)⟩
      | c, rest =>
        if skipping && (isSpace c || c = '\n') then
          (longBasic? .afterBreak rest).map (·.widen (Nat.le_add_right _ 1))
        else if (isTextCharacter c && c ≠ '\\') || c = '\n' then
          (longBasic? .inText rest).map (·.cons c (length_le_cons c rest))
        else none

/-- A string of several lines without escapes, from behind its opening marks. -/
def longLiteral? : (text : List Char) → Option (Parsed (List Char) text)
  | [] => none
  | '\'' :: '\'' :: '\'' :: '\'' :: '\'' :: rest =>
    some ⟨['\'', '\''], rest, Nat.le_add_right _ 5⟩
  | '\'' :: '\'' :: '\'' :: '\'' :: rest => some ⟨['\''], rest, Nat.le_add_right _ 4⟩
  | '\'' :: '\'' :: '\'' :: rest => some ⟨[], rest, Nat.le_add_right _ 3⟩
  | '\r' :: '\n' :: rest =>
    (longLiteral? rest).map fun body =>
      ⟨'\r' :: '\n' :: body.value, body.rest, Nat.le_trans body.le (Nat.le_add_right _ 2)⟩
  | c :: rest =>
    if isTextCharacter c || c = '\n' then
      (longLiteral? rest).map (·.cons c (length_le_cons c rest))
    else none

/-- Reads from behind a line end that follows the opening marks, which does not count. -/
def skipFirstLineEnd (read : (text : List Char) → Option (Parsed (List Char) text))
    (text : List Char) : Option (Parsed (List Char) text) :=
  match lineEnd? text with
  | some first => (read first.rest).map (·.widen first.le)
  | none => read text

/-! ## Any string -/

/-- A string on one line, if a quotation mark comes next. -/
def shortString? : (text : List Char) → Option (Parsed (List Char) text)
  | [] => none
  | mark :: rest =>
    if mark = '"' then (basic? rest).map (·.widen (length_le_cons mark rest))
    else if mark = '\'' then (literal? rest).map (·.widen (length_le_cons mark rest))
    else none

/-- Any string, if a quotation mark comes next. -/
def string? : (text : List Char) → Option (Parsed (List Char) text)
  | '"' :: '"' :: '"' :: rest =>
    (skipFirstLineEnd (longBasic? .inText) rest).map (·.widen (Nat.le_add_right _ 3))
  | '\'' :: '\'' :: '\'' :: rest =>
    (skipFirstLineEnd longLiteral? rest).map (·.widen (Nat.le_add_right _ 3))
  | text => shortString? text

end LadderLogic.Toml
