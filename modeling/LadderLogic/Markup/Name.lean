/-
Qualified names, `qualifier:name` or `name`.
-/

import LadderLogic.Markup.Cursor

namespace LadderLogic.Markup

/-- A name with the qualifier written before its colon, which may be empty. -/
structure QualifiedName where
  qualifier : String
  name : String
deriving DecidableEq

namespace QualifiedName

/-- The name as it is shown, with its qualifier if it has one. -/
def text (q : QualifiedName) : String :=
  if q.qualifier.isEmpty then q.name else q.qualifier ++ ":" ++ q.name

/-- The characters begin like a name. -/
def startsName : List Char → Bool
  | [] => false
  | c :: _ => isNameStart c

/-- Divides a run of name characters at its colon.  A run has at most one colon, and
what stands after it, and before it if anything does, begins like a name. -/
def ofRun? (run : List Char) : Option QualifiedName :=
  let head := run.takeWhile (· != ':')
  match run.dropWhile (· != ':') with
  | [] => if startsName run then some ⟨"", String.ofList run⟩ else none
  | _ :: tail =>
    if !tail.contains ':' && (head.isEmpty || startsName head) && startsName tail then
      some ⟨String.ofList head, String.ofList tail⟩
    else none

@[simp] theorem ofRun?_nil : ofRun? [] = none := rfl

end QualifiedName

namespace Cursor

/-- The cursor `b` comes from `a` by reading at least one character. -/
def Passes (a b : Cursor) : Prop := a.Reaches b ∧ b.rest.length < a.rest.length

theorem Passes.trans_reaches {a b c : Cursor} (h : a.Passes b) (h' : b.Reaches c) :
    a.Passes c :=
  ⟨h.1.trans h', Nat.lt_of_le_of_lt h'.length_le h.2⟩

theorem passes_dropWhile (a : Cursor) (p : Char → Bool) (h : a.rest.takeWhile p ≠ []) :
    a.Passes (a.dropWhile p) := by
  refine ⟨a.reaches_dropWhile p, ?_⟩
  have hsplit := congrArg List.length (List.takeWhile_append_dropWhile (p := p) (l := a.rest))
  have hpos := List.length_pos_iff.2 h
  rw [List.length_append] at hsplit
  simp only [dropWhile]
  omega

end Cursor

/-- The outcome of a reading step that read at least one character. -/
structure Passed (α : Type) (a : Cursor) where
  value : α
  next : Cursor
  passes : a.Passes next

/-- A step that read at least one character is a step. -/
def Passed.scanned {α : Type} {a : Cursor} (r : Passed α a) : Scanned α a :=
  ⟨r.value, r.next, r.passes.1⟩

/-- Reads a qualified name, which is never empty. -/
def qualifiedName (a : Cursor) : Except Error (Passed QualifiedName a) :=
  match h : QualifiedName.ofRun? (a.rest.takeWhile isName) with
  | none => .error (.invalidName a.offset)
  | some q =>
    .ok ⟨q, a.dropWhile isName, a.passes_dropWhile isName (by intro hn; simp [hn] at h)⟩

end LadderLogic.Markup
