/-
Byte spans of a text, and the row and column of a byte offset.

A text is a list of characters; offsets count its bytes in UTF-8.  `Position.ofOffset`
gives the row and the column of an offset, both counted from one, the column in
characters.  `Span.atPosition` goes the other way: it finds the character at a row
and a column again.
-/

namespace LadderLogic

namespace Text

/-- The number of bytes of a text in UTF-8. -/
def byteLength : List Char → Nat
  | [] => 0
  | c :: text => c.utf8Size + byteLength text

@[simp] theorem byteLength_nil : byteLength [] = 0 := rfl

@[simp] theorem byteLength_cons (c : Char) (text : List Char) :
    byteLength (c :: text) = c.utf8Size + byteLength text := rfl

@[simp] theorem byteLength_append (a b : List Char) :
    byteLength (a ++ b) = byteLength a + byteLength b := by
  induction a with
  | nil => simp
  | cons c a ih => simp [ih, Nat.add_assoc]

/-- The characters that begin before a byte offset. -/
def before : List Char → Nat → List Char
  | [], _ => []
  | c :: text, offset => if offset = 0 then [] else c :: before text (offset - c.utf8Size)

/-- The lines of a text.  A line keeps its line feed. -/
def lines : List Char → List (List Char)
  | [] => []
  | c :: text =>
    if c = '\n' then [c] :: lines text
    else match lines text with
      | [] => [[c]]
      | line :: rest => (c :: line) :: rest

end Text

/-- A range of byte offsets, from `start` up to but not including `stop`. -/
structure Span where
  start : Nat
  stop : Nat
  start_le_stop : start ≤ stop
deriving DecidableEq

namespace Span

/-- The span between two offsets, empty at the first one when they are out of order. -/
def between (start stop : Nat) : Span := ⟨start, max start stop, Nat.le_max_left ..⟩

/-- The number of bytes. -/
def length (s : Span) : Nat := s.stop - s.start

/-- No bytes at all. -/
def isEmpty (s : Span) : Bool := s.start == s.stop

end Span

/-- A place in a text as a reader counts it: rows and columns from one. -/
structure Position where
  row : Nat
  column : Nat
deriving DecidableEq

namespace Position

/-- The first character. -/
def first : Position := ⟨1, 1⟩

/-- The place after one more character. -/
def advance (p : Position) (c : Char) : Position :=
  if c = '\n' then ⟨p.row + 1, 1⟩ else ⟨p.row, p.column + 1⟩

/-- The place of a byte offset. -/
def ofOffset (text : List Char) (offset : Nat) : Position :=
  (Text.before text offset).foldl advance first

/-- Row and column, divided by a colon. -/
def text (p : Position) : String := toString p.row ++ ":" ++ toString p.column

end Position

namespace Span

/-- The character at a position.  A column past the end of its line gives the empty
span after the line, and a row past the last one the empty span after the text. -/
def atPosition (text : List Char) (p : Position) : Span :=
  let lines := Text.lines text
  match (if p.row = 0 then none else lines[p.row - 1]?) with
  | none => between (Text.byteLength text) 0
  | some row =>
    let start := Text.byteLength (lines.take (p.row - 1)).flatten
      + Text.byteLength (row.take (p.column - 1))
    between start (start + (row[p.column - 1]?.map Char.utf8Size).getD 0)

end Span

end LadderLogic
