/-
A place in the text of a document, and scans that move it forward.

A `Cursor` is a byte offset with the text that is left.  `Cursor.Reaches` says that
one cursor comes from another by reading some characters; a `Scan` is a reading
step whose result carries that fact, so that every sequence of steps leaves a
suffix of the text and the loops over a document come to an end.
-/

import LadderLogic.Markup.Error

namespace LadderLogic.Markup

/-- What is left of a text, and how many bytes came before it. -/
structure Cursor where
  offset : Nat
  rest : List Char
deriving DecidableEq

namespace Cursor

/-- The beginning of a text. -/
def start (text : List Char) : Cursor := ⟨0, text⟩

/-- The cursor `b` comes from `a` by reading some characters. -/
def Reaches (a b : Cursor) : Prop :=
  ∃ read, a.rest = read ++ b.rest ∧ b.offset = a.offset + Text.byteLength read

theorem Reaches.refl (a : Cursor) : a.Reaches a := ⟨[], rfl, rfl⟩

theorem Reaches.trans {a b c : Cursor} (h : a.Reaches b) (h' : b.Reaches c) : a.Reaches c := by
  obtain ⟨read, hr, ho⟩ := h
  obtain ⟨read', hr', ho'⟩ := h'
  exact ⟨read ++ read', by simp [hr, hr'], by simp [ho, ho', Nat.add_assoc]⟩

theorem Reaches.length_le {a b : Cursor} (h : a.Reaches b) : b.rest.length ≤ a.rest.length := by
  obtain ⟨read, hr, _⟩ := h
  simp [hr]

/-- Moves over a number of characters. -/
def drop (a : Cursor) (count : Nat) : Cursor :=
  ⟨a.offset + Text.byteLength (a.rest.take count), a.rest.drop count⟩

theorem reaches_drop (a : Cursor) (count : Nat) : a.Reaches (a.drop count) :=
  ⟨a.rest.take count, (List.take_append_drop ..).symm, rfl⟩

theorem length_drop (a : Cursor) (count : Nat) :
    (a.drop count).rest.length = a.rest.length - count := by
  simp [drop]

/-- What is read from behind a first character leaves less text. -/
theorem Reaches.length_lt {a b : Cursor} {count : Nat} (h : (a.drop (count + 1)).Reaches b)
    (hne : a.rest ≠ []) : b.rest.length < a.rest.length := by
  have hle := h.length_le
  have hpos := List.length_pos_iff.2 hne
  rw [length_drop] at hle
  omega

/-- Moves over the characters of a class. -/
def dropWhile (a : Cursor) (p : Char → Bool) : Cursor :=
  ⟨a.offset + Text.byteLength (a.rest.takeWhile p), a.rest.dropWhile p⟩

theorem reaches_dropWhile (a : Cursor) (p : Char → Bool) : a.Reaches (a.dropWhile p) :=
  ⟨a.rest.takeWhile p, List.takeWhile_append_dropWhile.symm, rfl⟩

/-- The given text comes next. -/
def startsWith (a : Cursor) (text : String) : Bool := text.toList.isPrefixOf a.rest

end Cursor

/-- The outcome of a reading step from `a`: a value, and a cursor further on. -/
structure Scanned (α : Type) (a : Cursor) where
  value : α
  next : Cursor
  reaches : a.Reaches next

/-- A reading step. -/
def Scan (α : Type) : Type := (a : Cursor) → Except Error (Scanned α a)

namespace Scan

variable {α β : Type}

/-- Reads nothing. -/
protected def pure (value : α) : Scan α := fun a => .ok ⟨value, a, .refl a⟩

/-- One step after another. -/
protected def bind (first : Scan α) (next : α → Scan β) : Scan β := fun a =>
  match first a with
  | .error e => .error e
  | .ok ⟨value, b, h⟩ =>
    match next value b with
    | .error e => .error e
    | .ok ⟨result, c, h'⟩ => .ok ⟨result, c, h.trans h'⟩

instance : Monad Scan where
  pure := Scan.pure
  bind := Scan.bind

/-- Stops with an error. -/
def fail (e : Error) : Scan α := fun _ => .error e

/-- The cursor as it stands. -/
def here : Scan Cursor := fun a => .ok ⟨a, a, .refl a⟩

/-- Moves over a number of characters. -/
def skip (count : Nat) : Scan Unit := fun a => .ok ⟨(), a.drop count, a.reaches_drop count⟩

/-- Reads the characters of a class. -/
def takeWhile (p : Char → Bool) : Scan (List Char) := fun a =>
  .ok ⟨a.rest.takeWhile p, a.dropWhile p, a.reaches_dropWhile p⟩

/-- Moves over white space. -/
def skipSpaces : Scan Unit := do
  let _ ← takeWhile isSpace

/-- The next character has to be the given one. -/
def character (wanted : Char) : Scan Unit := do
  let a ← here
  match a.rest with
  | [] => fail .unexpectedEnd
  | found :: _ => if found = wanted then skip 1 else fail (.expectedCharacter wanted found a.offset)

/-- The given text has to come next. -/
def exactly (wanted : String) : Scan Unit := do
  let a ← here
  if a.startsWith wanted then skip wanted.length else fail (.expectedText wanted a.offset)

/-- A quotation mark of either kind has to come next. -/
def quote : Scan Char := do
  let a ← here
  match a.rest with
  | [] => fail .unexpectedEnd
  | found :: _ =>
    if found = '\'' ∨ found = '"' then do
      skip 1
      return found
    else fail (.expectedQuote found a.offset)

/-- The characters before the first place where `stop` holds of what is left, or all of
them.  Every character up to and at that place has to be one that a document may hold. -/
def charactersBefore (stop : List Char → Bool) : Nat → List Char → Except Error (List Char)
  | _, [] => .ok []
  | offset, c :: rest =>
    if !isCharacter c then .error (.forbiddenCharacter c offset)
    else if stop (c :: rest) then .ok []
    else (charactersBefore stop (offset + c.utf8Size) rest).map (c :: ·)

/-- Reads characters up to the first place where `stop` holds of what is left. -/
def charactersUntil (stop : List Char → Bool) : Scan (List Char) := do
  let a ← here
  match charactersBefore stop a.offset a.rest with
  | .error e => fail e
  | .ok read => do
    skip read.length
    return read

/-- Reads characters up to the given text. -/
def charactersUntilText (closing : String) : Scan (List Char) :=
  charactersUntil (closing.toList.isPrefixOf ·)

/-- Reads a name. -/
def name : Scan (List Char) := do
  let a ← here
  match a.rest with
  | [] => fail (.invalidName a.offset)
  | c :: _ => if isNameStart c then takeWhile isName else fail (.invalidName a.offset)

end Scan

end LadderLogic.Markup
