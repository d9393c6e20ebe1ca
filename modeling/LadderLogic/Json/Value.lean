/-
JSON values and their text.

A value is written over several lines: each item of an array and each field of a
record on a line of its own, two spaces further in than what it belongs to.
-/

import LadderLogic.Number.Numeral

namespace LadderLogic.Json

/-- A JSON value.  A number without digits is written as `null`. -/
inductive Value where
  | bool (b : Bool)
  | number (x : Float32)
  | string (s : String)
  | array (items : List Value)
  | record (fields : List (String × Value))

/-! ## Strings -/

/-- A hexadecimal digit, in small letters. -/
def hexDigit (n : Nat) : Char := Nat.digitChar n

/-- How a character is written inside a string. -/
def escapeChar (c : Char) : List Char :=
  if c = '"' then ['\\', '"']
  else if c = '\\' then ['\\', '\\']
  else if c = '\n' then ['\\', 'n']
  else if c = '\r' then ['\\', 'r']
  else if c = '\t' then ['\\', 't']
  else if c.toNat = 0x08 then ['\\', 'b']
  else if c.toNat = 0x0C then ['\\', 'f']
  else if c.toNat < 0x20 then
    ['\\', 'u', '0', '0', hexDigit (c.toNat / 16), hexDigit (c.toNat % 16)]
  else [c]

/-- A string in quotation marks. -/
def quoted (s : String) : List Char := '"' :: (s.toList.flatMap escapeChar ++ ['"'])

/-! ## Values -/

/-- The beginning of a line at the given depth. -/
def newline (depth : Nat) : List Char := '\n' :: List.replicate (2 * depth) ' '

namespace Value

mutual

/-- The text of a value whose lines begin at the given depth. -/
def write (depth : Nat) : Value → List Char
  | bool b => if b then "true".toList else "false".toList
  | number x => Numeral.write .record (.ofFloat32 x)
  | string s => quoted s
  | array [] => ['[', ']']
  | array (item :: rest) =>
    '[' :: (newline (depth + 1) ++ write (depth + 1) item ++ writeItems (depth + 1) rest
      ++ newline depth ++ [']'])
  | record [] => ['{', '}']
  | record ((name, value) :: rest) =>
    '{' :: (newline (depth + 1) ++ quoted name ++ [':', ' '] ++ write (depth + 1) value
      ++ writeFields (depth + 1) rest ++ newline depth ++ ['}'])

/-- The items of an array after the first one. -/
def writeItems (depth : Nat) : List Value → List Char
  | [] => []
  | item :: rest => ',' :: (newline depth ++ write depth item ++ writeItems depth rest)

/-- The fields of a record after the first one. -/
def writeFields (depth : Nat) : List (String × Value) → List Char
  | [] => []
  | (name, value) :: rest =>
    ',' :: (newline depth ++ quoted name ++ [':', ' '] ++ write depth value
      ++ writeFields depth rest)

end

/-- The text of a value. -/
def text (v : Value) : String := String.ofList (v.write 0)

end Value

end LadderLogic.Json
