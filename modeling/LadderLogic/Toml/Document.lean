/-
TOML documents.

A document is a sequence of lines: a key with its value, or a header that opens the table
to which the keys below it belong.  `Toml.read?` gives the data of a document, or nothing
if it is malformed.
-/

import LadderLogic.Toml.Plain
import LadderLogic.Toml.Quoted
import LadderLogic.Toml.Table

namespace LadderLogic.Toml

/-! ## Keys -/

/-- A character of a key without quotation marks. -/
def isKeyCharacter (c : Char) : Bool := c.isAlphanum || c == '_' || c == '-'

/-- Reads one name of a key. -/
def name? (text : List Char) : Option (Parsed String text) :=
  match shortString? text with
  | some p => some (p.map String.ofList)
  | none =>
    let name := text.takeWhile isKeyCharacter
    if name.isEmpty then none
    else some ((skipWhile isKeyCharacter text).map fun _ => String.ofList name)

/-- A key: the names that lead to a table, and the name in that table. -/
structure Key where
  path : List String
  name : String

/-- Reads the names of a key, with spaces around it and around its points. -/
def names? (text : List Char) : Option (Parsed Key text) :=
  let spaces := skipSpaces text
  match name? spaces.rest with
  | none => none
  | some first =>
    let behind := skipSpaces first.rest
    have hle : behind.rest.length ≤ text.length :=
      Nat.le_trans behind.le (Nat.le_trans first.le spaces.le)
    match h : behind.rest with
    | '.' :: rest =>
      have hlt : rest.length < text.length := by
        rw [h, List.length_cons] at hle
        exact hle
      match names? rest with
      | none => none
      | some p =>
        some ((p.map fun key => ⟨first.value :: key.path, key.name⟩).widen (Nat.le_of_lt hlt))
    | _ => some ⟨⟨[], first.value⟩, behind.rest, hle⟩
termination_by text.length

/-- How many names a key may have, and how deep values may be nested. -/
def depthLimit : Nat := 80

/-- Reads a key, with spaces around it and around its points. -/
def key? (text : List Char) : Option (Parsed Key text) :=
  (names? text).filter fun p => p.value.path.length < depthLimit

/-- Reads a key, the equals sign behind it, and what may be skipped on either side of the
sign. -/
def assignment? (skip : (text : List Char) → Parsed Unit text) (text : List Char) :
    Option (Parsed Key text) :=
  match key? text with
  | none => none
  | some p =>
    let before := skip p.rest
    match h : before.rest with
    | '=' :: rest =>
      let behind := skip rest
      some ⟨p.value, behind.rest, by
        have h₁ := Nat.le_trans before.le p.le
        have h₂ := behind.le
        rw [h, List.length_cons] at h₁
        omega⟩
    | _ => none

/-! ## Values -/

mutual

/-- Reads a value, in which lists and tables may be nested to the given depth. -/
def value? (depth : Nat) (text : List Char) : Option (Parsed Datum text) :=
  match text with
  | '[' :: rest =>
    if depth = 0 then none
    else (items? (depth - 1) rest).map fun p => (p.map .list).widen (Nat.le_add_right _ 1)
  | '{' :: rest =>
    if depth = 0 then none
    else
      (entries? (depth - 1) [] rest).map fun p =>
        (p.map fun entries => .table (entriesData entries)).widen (Nat.le_add_right _ 1)
  | '"' :: rest => (string? ('"' :: rest)).map (·.map fun s => .string (String.ofList s))
  | '\'' :: rest => (string? ('\'' :: rest)).map (·.map fun s => .string (String.ofList s))
  | text => plain? text
termination_by 2 * text.length

/-- Reads the rest of a list, from behind its bracket or a comma. -/
def items? (depth : Nat) (text : List Char) : Option (Parsed (List Datum) text) :=
  let lines := skipLines false text
  match h : lines.rest with
  | ']' :: rest =>
    some ⟨[], rest, by
      have := lines.le
      rw [h, List.length_cons] at this
      omega⟩
  | other =>
    have hle : other.length ≤ text.length := h ▸ lines.le
    match value? depth other with
    | none => none
    | some first =>
      let lines := skipLines false first.rest
      have hle' : lines.rest.length ≤ text.length :=
        Nat.le_trans lines.le (Nat.le_trans first.le hle)
      match h' : lines.rest with
      | ']' :: rest =>
        some ⟨[first.value], rest, by
          rw [h', List.length_cons] at hle'
          omega⟩
      | ',' :: rest =>
        have hlt : rest.length < text.length := by
          rw [h', List.length_cons] at hle'
          exact hle'
        (items? depth rest).map fun p => (p.map (first.value :: ·)).widen (Nat.le_of_lt hlt)
      | _ => none
termination_by 2 * text.length + 1

/-- Reads the rest of a table in braces, from behind its brace or a comma. -/
def entries? (depth : Nat) (done : Entries) (text : List Char) : Option (Parsed Entries text) :=
  let lines := skipLines false text
  match h : lines.rest with
  | '}' :: rest =>
    some ⟨done, rest, by
      have := lines.le
      rw [h, List.length_cons] at this
      omega⟩
  | other =>
    have hle : other.length ≤ text.length := h ▸ lines.le
    match assignment? (skipLines false) other with
    | none => none
    | some key =>
      have hkey : key.rest.length ≤ text.length := Nat.le_trans key.le hle
      match value? depth key.rest with
      | none => none
      | some value =>
        match Entries.insert? key.value.path key.value.name value.value done with
        | none => none
        | some done =>
          let lines := skipLines false value.rest
          have hle' : lines.rest.length ≤ text.length :=
            Nat.le_trans lines.le (Nat.le_trans value.le hkey)
          match h' : lines.rest with
          | '}' :: rest =>
            some ⟨done, rest, by
              rw [h', List.length_cons] at hle'
              omega⟩
          | ',' :: rest =>
            have hlt : rest.length < text.length := by
              rw [h', List.length_cons] at hle'
              exact hle'
            (entries? depth done rest).map fun p => p.widen (Nat.le_of_lt hlt)
          | _ => none
termination_by 2 * text.length + 1

end

/-! ## Documents -/

/-- A document that is being read. -/
structure Document where
  root : Entries
  /-- The table to which keys belong. -/
  opened : List String

namespace Document

/-- A document without lines. -/
def empty : Document := ⟨[], []⟩

/-- Adds a key to the table that is open. -/
def insert? (doc : Document) (key : Key) (datum : Datum) : Option Document :=
  (doc.root.change? .opened (Entries.insert? key.path key.name datum) doc.opened).map
    fun root => { doc with root := root }

/-- Opens a table. -/
def openTable? (doc : Document) (key : Key) : Option Document :=
  (doc.root.defineTable? key.path key.name).map fun root => ⟨root, key.path ++ [key.name]⟩

/-- Opens a new item of a list of tables. -/
def openItem? (doc : Document) (key : Key) : Option Document :=
  (doc.root.extendTables? key.path key.name).map fun root => ⟨root, key.path ++ [key.name]⟩

/-- Reads a line with a header or a key. -/
def line? (doc : Document) (text : List Char) : Option (Parsed Document text) :=
  match text with
  | '[' :: '[' :: rest =>
    match key? rest with
    | none => none
    | some key =>
      match h : key.rest with
      | ']' :: ']' :: behind =>
        (doc.openItem? key.value).map fun doc => ⟨doc, behind, by
          have := key.le
          simp only [h, List.length_cons] at this ⊢
          omega⟩
      | _ => none
  | '[' :: rest =>
    match key? rest with
    | none => none
    | some key =>
      match h : key.rest with
      | ']' :: behind =>
        (doc.openTable? key.value).map fun doc => ⟨doc, behind, by
          have := key.le
          simp only [h, List.length_cons] at this ⊢
          omega⟩
      | _ => none
  | text =>
    match assignment? skipSpaces text with
    | none => none
    | some key =>
      match value? depthLimit key.rest with
      | none => none
      | some value =>
        (doc.insert? key.value value.value).map fun doc =>
          ⟨doc, value.rest, Nat.le_trans value.le key.le⟩

/-- Reads all lines of a document. -/
def lines? (doc : Document) (text : List Char) : Option Document :=
  let lines := skipLines false text
  match h : lines.rest with
  | [] => some doc
  | c :: rest =>
    match doc.line? (c :: rest) with
    | none => none
    | some line =>
      match behindLine? line.rest with
      | none => none
      | some ⟨behind, hb⟩ =>
        have : behind.length < text.length := by
          have h₁ := lines.le
          have h₂ := line.le
          simp only [h, List.length_cons] at h₁ h₂
          rcases hb with rfl | hb
          · simp only [List.length_nil]
            omega
          · omega
        line.value.lines? behind
termination_by text.length

end Document

/-- The data of a document.  A byte order mark may stand in front. -/
def read? (source : String) : Option Datum :=
  let text := match source.toList with
    | '\uFEFF' :: rest => rest
    | text => text
  (Document.empty.lines? text).map fun doc => .table (entriesData doc.root)

end LadderLogic.Toml
