/-
Character references, and the text that attribute values and character data stand for.

A reference is `&#10;`, `&#xA;` or one of five names.  Line ends are normalized while
a text is decoded, but a character that came from a reference is taken as it is.
-/

import LadderLogic.Markup.Cursor
import LadderLogic.Number.Digit

namespace LadderLogic.Markup

/-! ## References -/

/-- The characters that have a name in every document. -/
def predefined? : String → Option Char
  | "quot" => some '"'
  | "amp" => some '&'
  | "apos" => some '\''
  | "lt" => some '<'
  | "gt" => some '>'
  | _ => none

/-- The character with the given number.  The number has at least one digit and fits 32
bits; one that belongs to no character stands for the replacement character; and the
character has to be one that a document may hold. -/
def numbered? (base : Nat) (digits : List Char) : Option Char :=
  let number := Digit.number base digits
  let c := Char.ofNat (if number.isValidChar then number else 0xFFFD)
  if digits.isEmpty || 0xFFFFFFFF < number || !isCharacter c then none else some c

/-- Reads a reference from behind its ampersand, which stood at the given offset. -/
def reference (offset : Nat) : Scan Char := do
  let malformed : {α : Type} → Scan α := Scan.fail (.malformedReference offset)
  let closing : Scan Unit := do
    let a ← Scan.here
    if a.startsWith ";" then Scan.skip 1 else malformed
  let a ← Scan.here
  if a.startsWith "#" then
    let hexadecimal := a.startsWith "#x"
    Scan.skip (if hexadecimal then 2 else 1)
    let digits ← Scan.takeWhile (if hexadecimal then Digit.isHex else Char.isDigit)
    match numbered? (if hexadecimal then 16 else 10) digits with
    | none => malformed
    | some c =>
      closing
      return c
  else if a.rest.head?.any isNameStart then
    let name ← Scan.takeWhile isName
    closing
    match predefined? (String.ofList name) with
    | some c => return c
    | none => Scan.fail (.unknownReference (String.ofList name) offset)
  else
    malformed

/-! ## Attribute values -/

/-- The value of an attribute: references are replaced, and line ends and tabs become
spaces, a carriage return before a line feed going with it. -/
def decodeValue (done : List Char) (a : Cursor) : Except Error (List Char) :=
  match h : a.rest with
  | [] => .ok done.reverse
  | c :: rest =>
    have : (a.drop 1).rest.length < a.rest.length := by simp [Cursor.length_drop, h]
    if c = '&' then
      match reference a.offset (a.drop 1) with
      | .error e => .error e
      | .ok ⟨found, b, hb⟩ =>
        have := hb.length_le
        decodeValue (found :: done) b
    else if c = '\r' && rest.head? == some '\n' then
      decodeValue done (a.drop 1)
    else
      decodeValue ((if isSpace c then ' ' else c) :: done) (a.drop 1)
termination_by a.rest.length

/-! ## Character data -/

/-- Adds a character to a text that is built back to front.  A carriage return turns
into a line feed once it is known what follows it, and takes a following line feed
with it. -/
def pushCharacter (done : List Char) (c : Char) (last : Bool) : List Char :=
  let ended := if c = '\r' && last then '\n' else c
  match done with
  | '\r' :: before => if c = '\n' then '\n' :: before else ended :: '\n' :: before
  | _ => ended :: done

/-- The text of character data.  After a reference, `raw` is set: the next character is
taken as it is. -/
def decodeText (raw : Bool) (done : List Char) (a : Cursor) : Except Error (List Char) :=
  match h : a.rest with
  | [] => .ok done.reverse
  | c :: rest =>
    have : (a.drop 1).rest.length < a.rest.length := by simp [Cursor.length_drop, h]
    if c = '&' then
      match reference a.offset (a.drop 1) with
      | .error e => .error e
      | .ok ⟨found, b, hb⟩ =>
        have := hb.length_le
        decodeText true (found :: done) b
    else if raw then
      decodeText false (c :: done) (a.drop 1)
    else
      decodeText false (pushCharacter done c rest.isEmpty) (a.drop 1)
termination_by a.rest.length

/-- The text of a section that holds no references. -/
def decodeSection (done : List Char) : List Char → List Char
  | [] => done.reverse
  | c :: rest => decodeSection (pushCharacter done c rest.isEmpty) rest

end LadderLogic.Markup
