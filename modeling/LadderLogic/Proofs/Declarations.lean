/-
The elements of a program are those that its document declares.

`Declares` says what it takes for a node of a ladder body to declare an element, field by
field and in terms of the document tree.  A node declares at most one element, the one that
the reader makes of it (`declares_iff`).  Declared elements with one identifier share one
place, that of the first of them, and the last of them is the one that counts
(`find?_declared`).
-/

import LadderLogic.Proofs.BodyReading
import Mathlib.Data.List.Forall2

namespace LadderLogic

open Markup (Node)

/-! ## Declarations -/

/-- The elements of a body that have an identifier. -/
def identified (body : Node) : List Node :=
  (bodyElements body).filter fun node => (node.attribute? "localId").any (· ≠ "")

/-- The node stands for the element. -/
structure Declares (node : Node) (e : Element) : Prop where
  id : node.HasAttribute "localId" e.id
  idFilled : e.id ≠ ""
  tag : node.HasName e.tag
  kind : e.kind = .ofTag e.tag
  negated : e.negated = true ↔
    node.HasAttribute "negated" "true" ∨ node.HasAttribute "negated" "1"
  /-- All text below the first variable in it, without the white space around it; nothing if
  there is no variable. -/
  operand : (∃ found, Node.IsFirstNamed "variable" node.contents found ∧
      Text.IsTrimmed (found.contents.flatMap Node.letters) e.operand.toList) ∨
    (∀ n ∈ node.contents, ¬ n.HasName "variable") ∧ e.operand = ""
  /-- What its connections refer to, in document order. -/
  inputs : e.inputs = (node.feeds.filterMap (Node.attribute? "refLocalId")).filter (· ≠ "")

variable {node : Node} {nodes : List Node} {e : Element} {id : String}

theorem filled?_eq_some_iff {wanted value : String} :
    filled? node wanted = some value ↔ node.attribute? wanted = some value ∧ value ≠ "" := by
  rw [filled?, Option.filter_eq_some_iff]
  simp

theorem identifier?_eq_some_iff :
    identifier? node = some id ↔ node.HasAttribute "localId" id ∧ id ≠ "" := by
  rw [identifier?, filled?_eq_some_iff, Node.attribute?_eq_some_iff]

theorem isSome_identifier? :
    (identifier? node).isSome = (node.attribute? "localId").any (· ≠ "") := by
  rw [identifier?, filled?]
  cases node.attribute? "localId" with
  | none => rfl
  | some value =>
    by_cases h : value = ""
    · simp [Option.filter, h]
    · simp [Option.filter, h]

theorem operand_eq_iff {text : String} :
    text = operand node ↔
      (∃ found, Node.IsFirstNamed "variable" node.contents found ∧
        Text.IsTrimmed (found.contents.flatMap Node.letters) text.toList) ∨
      (∀ n ∈ node.contents, ¬ n.HasName "variable") ∧ text = "" := by
  rw [operand, Node.properDescendants_eq_contents]
  cases hfind : node.contents.find? (·.isNamed "variable") with
  | none =>
    have hnone := Node.find?_isNamed_eq_none_iff.1 hfind
    constructor
    · intro htext
      exact Or.inr ⟨hnone, htext⟩
    · rintro (⟨found, hfirst, -⟩ | ⟨-, htext⟩)
      · have hsome := Node.find?_isNamed_eq_some_iff.2 hfirst
        rw [hfind] at hsome
        cases hsome
      · exact htext
  | some found =>
    have hfirst := Node.find?_isNamed_eq_some_iff.1 hfind
    dsimp only
    rw [Node.toList_textContent hfirst.named, ← String.toList_inj, String.toList_ofList,
      ← Text.isTrimmed_iff]
    constructor
    · intro htrimmed
      exact Or.inl ⟨found, hfirst, htrimmed⟩
    · rintro (⟨other, hother, htrimmed⟩ | ⟨hnone, -⟩)
      · -- there is one first variable only
        have hsome := Node.find?_isNamed_eq_some_iff.2 hother
        rw [hfind] at hsome
        cases hsome
        exact htrimmed
      · have hfindNone := Node.find?_isNamed_eq_none_iff.2 hnone
        rw [hfind] at hfindNone
        cases hfindNone

theorem isNegated_iff :
    isNegated node = true ↔
      node.HasAttribute "negated" "true" ∨ node.HasAttribute "negated" "1" := by
  simp [isNegated, Node.attribute?_eq_some_iff]

theorem filterMap_reference? (connections : List Node) :
    connections.filterMap reference? =
      (connections.filterMap (Node.attribute? "refLocalId")).filter (· ≠ "") := by
  rw [List.filter_filterMap]
  apply List.filterMap_congr
  intro c _
  rw [reference?, filled?]
  cases c.attribute? "refLocalId" with
  | none => rfl
  | some value => simp [Option.filter]

/-- A node declares one element, or none if it has no identifier. -/
theorem declares_iff :
    Declares node e ↔ ∃ id, identifier? node = some id ∧ e = elementOf node id := by
  constructor
  · intro h
    refine ⟨e.id, identifier?_eq_some_iff.2 ⟨h.id, h.idFilled⟩, ?_⟩
    have hoperand : e.operand = operand node := operand_eq_iff.2 h.operand
    have hnegated : e.negated = isNegated node := by
      rw [Bool.eq_iff_iff, h.negated, isNegated_iff]
    have hinputs : e.inputs = (connections node).filterMap reference? := by
      rw [h.inputs, connections_eq_feeds, filterMap_reference?]
    rw [elementOf, ← hoperand, ← hnegated, ← hinputs, h.tag.name_eq, ← h.kind]
  · rintro ⟨id, hid, rfl⟩
    obtain ⟨hattribute, hfilled⟩ := identifier?_eq_some_iff.1 hid
    exact {
      id := hattribute
      idFilled := hfilled
      tag := hattribute.hasName
      kind := rfl
      negated := isNegated_iff
      operand := operand_eq_iff.1 rfl
      inputs := by rw [elementOf, connections_eq_feeds, filterMap_reference?] }

/-! ## The map of all declarations -/

theorem declared_filter (nodes : List Node) :
    declared (nodes.filter fun node => (node.attribute? "localId").any (· ≠ "")) =
      declared nodes := by
  rw [declared, List.filterMap_filter, declared]
  apply List.filterMap_congr
  intro node _
  rw [← isSome_identifier?]
  cases identifier? node with
  | none => rfl
  | some id => rfl

theorem filterMap_identifier? (nodes : List Node) :
    nodes.filterMap identifier? =
      (nodes.filter fun node => (node.attribute? "localId").any (· ≠ "")).filterMap
        (Node.attribute? "localId") := by
  rw [List.filterMap_filter]
  apply List.filterMap_congr
  intro node _
  rw [← isSome_identifier?]
  cases h : identifier? node with
  | none => rfl
  | some id => exact (filled?_eq_some_iff.1 h).1.symm

/-- Under an identifier stands what the last node with it declares. -/
theorem find?_declared (nodes : List Node) (id : String) :
    (ElementMap.ofList (declared nodes)).find? id =
      (nodes.reverse.find? (identifier? · == some id)).map (elementOf · id) := by
  rw [ElementMap.find?_ofList, declared, ← List.filterMap_reverse, List.find?_filterMap]
  -- a node gives an element with the identifier exactly when it has the identifier
  have hsame : (fun node => Option.any (fun x : Element => x.id == id)
      ((identifier? node).map (elementOf node))) = fun node => identifier? node == some id := by
    funext node
    cases identifier? node with
    | none => rfl
    | some other => rfl
  rw [hsame]
  cases h : nodes.reverse.find? (identifier? · == some id) with
  | none => rfl
  | some node =>
    have hid : identifier? node = some id := by simpa using List.find?_some h
    rw [Option.bind_some, hid, Option.map_some, Option.map_some]

theorem find?_declared_eq_some_iff :
    (ElementMap.ofList (declared nodes)).find? id = some e ↔
      ∃ before node after, nodes = before ++ node :: after ∧ Declares node e ∧ e.id = id ∧
        ∀ later ∈ after, ¬ later.HasAttribute "localId" id := by
  rw [find?_declared, Option.map_eq_some_iff]
  constructor
  · rintro ⟨node, hfound, rfl⟩
    obtain ⟨hnode, after, before, hsplit, hafter⟩ := List.find?_eq_some_iff_append.1 hfound
    have hid : identifier? node = some id := by simpa using hnode
    refine ⟨before.reverse, node, after.reverse, ?_, declares_iff.2 ⟨id, hid, rfl⟩, rfl, ?_⟩
    · rw [← List.reverse_reverse nodes, hsplit, List.reverse_append, List.reverse_cons,
        List.append_assoc, List.singleton_append]
    · intro later hlater hattribute
      have hnot := hafter later (List.mem_reverse.1 hlater)
      have hlast : identifier? later = some id :=
        identifier?_eq_some_iff.2 ⟨hattribute, (identifier?_eq_some_iff.1 hid).2⟩
      simp [hlast] at hnot
  · rintro ⟨before, node, after, rfl, hdeclares, rfl, hafter⟩
    obtain ⟨id, hid, rfl⟩ := declares_iff.1 hdeclares
    refine ⟨node, List.find?_eq_some_iff_append.2 ⟨by simp [hid, elementOf], ?_⟩, rfl⟩
    refine ⟨after.reverse, before.reverse, ?_, ?_⟩
    · rw [List.reverse_append, List.reverse_cons, List.append_assoc, List.singleton_append]
    · intro later hlater
      have hnot : identifier? later ≠ some id := fun hsame =>
        hafter later (List.mem_reverse.1 hlater) (identifier?_eq_some_iff.1 hsame).1
      simpa [elementOf] using hnot

/-- Nodes that declare the same elements, one by one, give the same map. -/
theorem declared_eq_of_forall₂ {nodes' : List Node}
    (h : List.Forall₂ (fun a b => ∀ e, Declares a e ↔ Declares b e) nodes nodes') :
    declared nodes = declared nodes' := by
  induction h with
  | nil => rfl
  | @cons a b as bs hab _ ih =>
    have hsame : (identifier? a).map (elementOf a) = (identifier? b).map (elementOf b) := by
      apply Option.ext
      intro e
      rw [Option.map_eq_some_iff, Option.map_eq_some_iff]
      have ha := @declares_iff a e
      have hb := @declares_iff b e
      simp only [eq_comm (a := e)] at ha hb
      rw [← ha, ← hb]
      exact hab e
    simp only [declared] at ih
    simp only [declared, List.filterMap_cons, hsame, ih]

/-- **The reader builds exactly the declared map.**  It reads the first `LD` of the document.
The keys are the identifiers of the body's elements, in the order of their first occurrence;
under each stands what the last element with it declares, and nothing else of the document
matters. -/
theorem Reading.elements_exact (source : String) {root body : Node}
    (h : Node.IsFirstNamed "LD" (root :: root.contents) body) :
    ∃ reading, ofDocument source.toList root = .ok reading ∧
      (Markup.Document.read source.toList = .ok root → ofSource source = .ok reading) ∧
      reading.elements.ids =
        ((identified body).filterMap (Node.attribute? "localId")).eraseDups ∧
      (∀ id e, reading.elements.find? id = some e ↔
        ∃ before node after, identified body = before ++ node :: after ∧ Declares node e ∧
          e.id = id ∧ ∀ later ∈ after, ¬ later.HasAttribute "localId" id) ∧
      ∀ (source' : String) (root' body' : Node) (reading' : Reading),
        Node.IsFirstNamed "LD" (root' :: root'.contents) body' →
        ofDocument source'.toList root' = .ok reading' →
        List.Forall₂ (fun a b => ∀ e, Declares a e ↔ Declares b e) (identified body)
          (identified body') → reading'.elements = reading.elements := by
  obtain ⟨reading, hreading, helements, -⟩ :=
    ofDocument_eq source.toList (ladderBody?_eq_some_iff.2 h)
  refine ⟨reading, hreading, ?_, ?_, ?_, ?_⟩
  · intro hread
    rw [ofSource_eq_ofDocument hread, hreading]
  · rw [helements, ElementMap.ids_ofList, map_id_declared, filterMap_identifier?, identified]
  · intro id e
    rw [helements, ← declared_filter]
    exact find?_declared_eq_some_iff
  · intro source' root' body' reading' h' hreading' hsame
    obtain ⟨reading'', hreading'', helements', -⟩ :=
      ofDocument_eq source'.toList (ladderBody?_eq_some_iff.2 h')
    rw [hreading'] at hreading''
    cases hreading''
    -- both maps are made from the same declarations
    have hdeclared := declared_eq_of_forall₂ hsame
    rw [identified, identified, declared_filter, declared_filter] at hdeclared
    rw [helements, helements', hdeclared]

/-! ## A body with a replaced contact -/

/-- An element of a document, by the bytes it runs between. -/
def plainElement (start stop : Nat) (name : String) (attributes : List (String × String))
    (children : List Node) : Node :=
  .element (.between start stop) name (attributes.map fun (n, v) => ⟨none, n, v⟩) children

/-- A contact that is replaced later on, with another contact inside. -/
def oldContact : Node :=
  plainElement 68 145 "contact" [("localId", "5")]
    [plainElement 89 113 "variable" [] [.text (.between 99 102) "Old"],
      plainElement 113 135 "contact" [("localId", "4")] []]

/-- A contact with an identifier of another namespace only, and with a connection that leads
nowhere. -/
def namelessContact : Node :=
  .element (.between 145 230) "contact" [⟨some "urn:x", "localId", "8"⟩]
    [plainElement 168 220 "connectionPointIn" [] [plainElement 187 200 "connection" [] []]]

/-- A coil with two connections, one of them without a reference. -/
def looseCoil : Node :=
  plainElement 230 335 "coil" [("localId", "6")]
    [plainElement 248 328 "connectionPointIn" []
      [plainElement 267 295 "connection" [("refLocalId", "5")] [],
        plainElement 295 308 "connection" [] []]]

/-- The contact that replaces the old one.  Its first connection is not in a connection point,
nothing has the identifier that the other one refers to, and a comment parts its variable. -/
def newContact : Node :=
  plainElement 335 512 "contact" [("localId", "5"), ("negated", "true")]
    [plainElement 371 399 "connection" [("refLocalId", "6")] [],
      plainElement 399 466 "connectionPointIn" []
        [plainElement 418 446 "connection" [("refLocalId", "9")] []],
      plainElement 466 502 "variable" []
        [.text (.between 476 479) " St", .aside (.between 479 487),
          .text (.between 487 491) "art "]]

/-- The ladder body with these four. -/
def patchedBody : Node :=
  plainElement 64 517 "LD" [] [oldContact, namelessContact, looseCoil, newContact]

/-- A body of another kind, before the ladder body. -/
def otherBody : Node :=
  plainElement 25 58 "FBD" [] [plainElement 30 52 "contact" [("localId", "9")] []]

/-- A second ladder body. -/
def secondBody : Node :=
  plainElement 524 552 "LD" [] [plainElement 528 547 "coil" [("localId", "7")] []]

/-- The document with these three bodies. -/
def patchedProject : Node :=
  plainElement 0 562 "project" []
    [otherBody, plainElement 58 524 "body" [] [patchedBody], secondBody]

theorem isFirstNamed_patchedBody :
    Node.IsFirstNamed "LD" (patchedProject :: patchedProject.contents) patchedBody :=
  ladderBody?_eq_some_iff.1 rfl

theorem Reading.elements_exact_patched :
    Node.IsFirstNamed "LD" (patchedProject :: patchedProject.contents) patchedBody ∧
    ∃ reading, ofDocument "".toList patchedProject = .ok reading ∧
      reading.elements.ids = ["5", "6"] ∧
      reading.elements.find? "5" = some ⟨"5", .contact, "contact", "Start", true, ["9"]⟩ ∧
      reading.elements.find? "6" = some ⟨"6", .coil, "coil", "", false, ["5"]⟩ := by
  have hcontact : Declares newContact ⟨"5", .contact, "contact", "Start", true, ["9"]⟩ :=
    declares_iff.2 ⟨"5", by decide +kernel, by decide +kernel⟩
  have hcoil : Declares looseCoil ⟨"6", .coil, "coil", "", false, ["5"]⟩ :=
    declares_iff.2 ⟨"6", by decide +kernel, by decide +kernel⟩
  obtain ⟨reading, hreading, -, hids, hfind, -⟩ := elements_exact "" isFirstNamed_patchedBody
  refine ⟨isFirstNamed_patchedBody, reading, hreading, hids.trans (by decide +kernel),
    (hfind _ _).2 ?_, (hfind _ _).2 ?_⟩
  · exact ⟨[oldContact, looseCoil], newContact, [], rfl, hcontact, rfl, List.forall_mem_nil _⟩
  · refine ⟨[oldContact], looseCoil, [newContact], rfl, hcoil, rfl, ?_⟩
    rw [List.forall_mem_singleton, ← Node.attribute?_eq_some_iff]
    decide +kernel

end LadderLogic
