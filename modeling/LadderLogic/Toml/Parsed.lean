/-
Reading a TOML text from its beginning.

Everything that is read leaves a rest that is no longer than the text it was read from.
The result carries that fact, and so the loops over nested values come to an end.
-/

namespace LadderLogic.Toml

/-- The outcome of reading: a value, and what is left of the text. -/
structure Parsed (α : Type) (text : List Char) where
  value : α
  rest : List Char
  le : rest.length ≤ text.length

namespace Parsed

variable {α β : Type} {text rest : List Char}

/-- The outcome seen from further back. -/
def widen (p : Parsed α rest) (h : rest.length ≤ text.length) : Parsed α text :=
  ⟨p.value, p.rest, Nat.le_trans p.le h⟩

/-- Changes the value. -/
def map (f : α → β) (p : Parsed α text) : Parsed β text := ⟨f p.value, p.rest, p.le⟩

end Parsed

/-- What follows a character is shorter. -/
theorem length_le_cons (c : Char) (rest : List Char) : rest.length ≤ (c :: rest).length :=
  Nat.le_add_right _ 1

/-! ## Spaces, comments and lines -/

/-- A space within a line. -/
def isSpace (c : Char) : Bool := c == ' ' || c == '\t'

/-- A character that comments and strings may hold: no control character but the tab. -/
def isTextCharacter (c : Char) : Bool := c == '\t' || (0x20 ≤ c.toNat && c.toNat ≠ 0x7F)

/-- Moves over the characters of a class. -/
def skipWhile (p : Char → Bool) (text : List Char) : Parsed Unit text :=
  ⟨(), text.dropWhile p, (List.dropWhile_suffix p).length_le⟩

/-- Moves over spaces within a line. -/
def skipSpaces (text : List Char) : Parsed Unit text := skipWhile isSpace text

/-- Moves over a comment, if there is one. -/
def skipComment (text : List Char) : Parsed Unit text :=
  if text.head? = some '#' then skipWhile isTextCharacter text else ⟨(), text, Nat.le_refl _⟩

/-- Moves over a line end. -/
def lineEnd? : (text : List Char) → Option (Parsed Unit text)
  | '\n' :: rest => some ⟨(), rest, Nat.le_add_right _ 1⟩
  | '\r' :: '\n' :: rest => some ⟨(), rest, Nat.le_add_right _ 2⟩
  | _ => none

/-- What is left behind a line end.  Spaces and a comment may stand before it, and the last
line needs none. -/
def behindLine? (text : List Char) :
    Option { rest : List Char // rest = [] ∨ rest.length < text.length } :=
  let spaces := skipSpaces text
  let comment := skipComment spaces.rest
  have hle : comment.rest.length ≤ text.length := Nat.le_trans comment.le spaces.le
  match h : comment.rest with
  | [] => some ⟨[], .inl rfl⟩
  | '\n' :: rest => some ⟨rest, .inr (by simp only [h, List.length_cons] at hle; omega)⟩
  | '\r' :: '\n' :: rest => some ⟨rest, .inr (by simp only [h, List.length_cons] at hle; omega)⟩
  | _ => none

/-- Moves over spaces, comments and line ends. -/
def skipLines (inComment : Bool) : (text : List Char) → Parsed Unit text
  | [] => ⟨(), [], Nat.le_refl _⟩
  | '\r' :: '\n' :: rest => (skipLines false rest).widen (Nat.le_add_right _ 2)
  | c :: rest =>
    if c = '\n' then (skipLines false rest).widen (Nat.le_add_right _ 1)
    else if inComment then
      if isTextCharacter c then (skipLines true rest).widen (Nat.le_add_right _ 1)
      else ⟨(), c :: rest, Nat.le_refl _⟩
    else if isSpace c then (skipLines false rest).widen (Nat.le_add_right _ 1)
    else if c = '#' then (skipLines true rest).widen (Nat.le_add_right _ 1)
    else ⟨(), c :: rest, Nat.le_refl _⟩

end LadderLogic.Toml
