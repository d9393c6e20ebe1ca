/-
The elements of a ladder program, and the map that holds them.

An element stands for one symbol of a ladder body and names the elements that feed
it.  An `ElementMap` finds elements by identifier and keeps them in the order in
which their identifiers were first seen: replacing an element keeps its place.
-/

namespace LadderLogic

/-- What a ladder element is. -/
inductive ElementKind where
  | contact
  | coil
  | leftRail
  | other
deriving DecidableEq

namespace ElementKind

/-- The kind that a tag stands for, in capital or small letters. -/
def ofTag (tag : String) : ElementKind :=
  let folded := tag.toLower
  if folded = "contact" then .contact
  else if folded = "coil" then .coil
  else if folded = "leftpowerrail" then .leftRail
  else .other

/-- The element is drawn on a branch; the others are passed over. -/
def isDrawn : ElementKind → Bool
  | contact | coil => true
  | leftRail | other => false

end ElementKind

/-- An element of a ladder program. -/
structure Element where
  id : String
  kind : ElementKind
  /-- The name of the tag it was read from. -/
  tag : String
  /-- The variable it reads or writes. -/
  operand : String
  negated : Bool
  /-- The elements that feed it. -/
  inputs : List String
deriving DecidableEq

/-- The first of the elements that feed it, which a branch is followed through. -/
def Element.primary? (e : Element) : Option String := e.inputs.head?

/-- Elements by identifier, in the order in which the identifiers were first seen. -/
structure ElementMap where
  elements : List Element
  distinct : (elements.map Element.id).Nodup
deriving DecidableEq

namespace ElementMap

/-- The map without elements. -/
def empty : ElementMap := ⟨[], List.nodup_nil⟩

/-- The identifiers in order. -/
def ids (m : ElementMap) : List String := m.elements.map Element.id

/-- The number of elements. -/
def size (m : ElementMap) : Nat := m.elements.length

/-- The element with an identifier. -/
def find? (m : ElementMap) (id : String) : Option Element := m.elements.find? (·.id == id)

/-- There is an element with the identifier. -/
def contains (m : ElementMap) (id : String) : Bool := m.ids.contains id

/-- The place of an identifier among the elements, or their number if it has none. -/
def indexOf (m : ElementMap) (id : String) : Nat := m.ids.idxOf id

/-- Puts an element at the place of the one that has its identifier. -/
def replaceIn (e : Element) (elements : List Element) : List Element :=
  elements.map fun x => if x.id = e.id then e else x

theorem map_id_replaceIn (e : Element) (elements : List Element) :
    (replaceIn e elements).map Element.id = elements.map Element.id := by
  simp only [replaceIn, List.map_map]
  apply List.map_congr_left
  intro x _
  by_cases h : x.id = e.id <;> simp [h]

/-- Puts an element into the map: in the place of the one with its identifier, or at
the end. -/
def insert (m : ElementMap) (e : Element) : ElementMap :=
  if h : e.id ∈ m.ids then
    ⟨replaceIn e m.elements, by rw [map_id_replaceIn]; exact m.distinct⟩
  else
    ⟨m.elements ++ [e], by
      simp only [ids] at h
      rw [List.map_append, List.nodup_append]
      refine ⟨m.distinct, by simp, ?_⟩
      intro a ha b hb hab
      simp only [List.map_cons, List.map_nil, List.mem_singleton] at hb
      exact h (hb ▸ hab ▸ ha)⟩

/-- Puts the elements of a list into the empty map, one after another. -/
def ofList (elements : List Element) : ElementMap := elements.foldl insert empty

/-- Takes the element with an identifier out; the others keep their order. -/
def erase (m : ElementMap) (id : String) : ElementMap where
  elements := m.elements.filter (·.id != id)
  distinct := m.distinct.sublist (List.filter_sublist.map _)

theorem nodup_map_id_of_perm {m : ElementMap} {elements : List Element}
    (h : elements.Perm m.elements) : (elements.map Element.id).Nodup :=
  (h.map Element.id).nodup_iff.2 m.distinct

/-- Takes the element at one place out and puts it at another; the others close up.
There is no result when a place is past the end. -/
def move? (m : ElementMap) (source target : Nat) : Option ElementMap :=
  match h : m.elements.drop source with
  | [] => none
  | e :: after =>
    let rest := m.elements.take source ++ after
    if target < m.size then
      some ⟨rest.take target ++ e :: rest.drop target, nodup_map_id_of_perm (by
        -- both orders are the element in front of the others
        refine List.perm_middle.trans ?_
        rw [List.take_append_drop]
        refine List.perm_middle.symm.trans ?_
        rw [← h, List.take_append_drop])⟩
    else none

end ElementMap

end LadderLogic
