/-
Rungs, rebuilt from the wiring of a program.

A rung belongs to a coil.  Each input of the coil is traced towards the left rail
through the first input of every element on the way; the contacts and coils met are
a branch of the rung, rail side first.  A trace also says how it ended.
-/

import LadderLogic.Element

namespace LadderLogic

/-- A contact or coil on a branch. -/
structure Contact where
  operand : String
  negated : Bool
  kind : ElementKind
deriving DecidableEq

/-- Contacts in series, rail side first. -/
abbrev Branch := List Contact

/-- A coil and the branches that feed it. -/
structure Rung where
  operand : String
  negated : Bool
  branches : List Branch
deriving DecidableEq

/-- The length of the longest branch. -/
def Rung.longest (rung : Rung) : Nat := (rung.branches.map List.length).max?.getD 0

/-! ## Traces -/

/-- How a trace ended. -/
inductive TraceEnd where
  /-- It reached the left rail. -/
  | rail
  /-- It reached an element that nothing feeds. -/
  | unfed
  /-- It reached an identifier that no element has. -/
  | dangling
  /-- It came back to an element it had been at. -/
  | cycle
deriving DecidableEq

/-- A branch and how its trace ended. -/
structure Trace where
  branch : Branch
  ending : TraceEnd
deriving DecidableEq

/-- What an element adds to the branches through it. -/
def Element.contacts (e : Element) : Branch :=
  if e.kind.isDrawn then [⟨e.operand, e.negated, e.kind⟩] else []

/-- The elements that a trace has not been at. -/
def ElementMap.unvisited (m : ElementMap) (visited : List String) : List Element :=
  m.elements.filter fun e => !visited.contains e.id

theorem ElementMap.length_unvisited_lt {m : ElementMap} {visited : List String} {id : String}
    {e : Element} (hnew : visited.contains id = false) (h : m.find? id = some e) :
    (m.unvisited (id :: visited)).length < (m.unvisited visited).length := by
  have hmem : e ∈ m.elements := List.mem_of_find?_eq_some h
  have hid : e.id = id := by simpa using List.find?_some h
  -- visiting one more element filters the elements once more, and takes out `e`
  have hsplit : m.unvisited (id :: visited) = (m.unvisited visited).filter (·.id != id) := by
    simp only [unvisited, List.filter_filter]
    apply List.filter_congr
    intro x _
    by_cases hx : x.id = id <;> simp [hx]
  rw [hsplit]
  refine List.length_filter_lt_length_iff_exists.2 ⟨e, ?_, by simp [hid]⟩
  simp only [unvisited, List.mem_filter]
  exact ⟨hmem, by rw [hid, hnew]; rfl⟩

/-- Traces from an identifier on, given those that the trace has been at. -/
def ElementMap.traceFrom (m : ElementMap) (visited : List String) (id : String) : Trace :=
  if hv : visited.contains id then ⟨[], .cycle⟩
  else
    match h : m.find? id with
    | none => ⟨[], .dangling⟩
    | some e =>
      if e.kind = .leftRail then ⟨[], .rail⟩
      else
        match e.primary? with
        | none => ⟨e.contacts, .unfed⟩
        | some next =>
          have := length_unvisited_lt (by simpa using hv) h
          let before := m.traceFrom (id :: visited) next
          ⟨before.branch ++ e.contacts, before.ending⟩
termination_by (m.unvisited visited).length

/-- Traces from an identifier towards the left rail. -/
def ElementMap.trace (m : ElementMap) (id : String) : Trace := m.traceFrom [] id

/-! ## Rungs of a program -/

/-- The rung of a coil.  A trace that meets no contact gives no branch. -/
def ElementMap.rungOf (m : ElementMap) (coil : Element) : Rung where
  operand := coil.operand
  negated := coil.negated
  branches := (coil.inputs.map fun id => (m.trace id).branch).filter (!·.isEmpty)

/-- The rungs of a program, in the order of its coils. -/
def ElementMap.rungs (m : ElementMap) : List Rung :=
  (m.elements.filter (·.kind == .coil)).map m.rungOf

end LadderLogic
