/-
What the reader of a ladder body has in hand after any number of elements.

The reader goes through the elements of a body with four accumulators.  `Body.Reads` says
what each of them holds, as a function of the elements read so far and of nothing else:

  * the map is what the declared elements give when they are put into the empty map one
    after another;
  * under each identifier, the place where it was first seen is that of the first element
    with it;
  * the references still to be checked are those of all identified elements;
  * the faults are those of each element, given the ones before it (`elementFaults`).

Reading one more element keeps this (`Reads.step`), so that it holds after any list of them
(`reads_foldl`).  The check of the references adds the dangling ones, and none of all these
faults is an error: `Reading.ofDocument_eq` says what the reading of a document is without
any loop.
-/

import LadderLogic.Proofs.DocumentTree
import LadderLogic.Proofs.Tracing
import Mathlib.Data.List.Induction

namespace LadderLogic

open Markup (Node)

/-! ## Maps built by insertion -/

namespace ElementMap

variable {m : ElementMap} {e x : Element} {es : List Element} {id : String}

theorem elements_insert (m : ElementMap) (e : Element) :
    (m.insert e).elements =
      if e.id ∈ m.ids then replaceIn e m.elements else m.elements ++ [e] := by
  rw [insert]
  split
  · rfl
  · rfl

theorem ids_insert (m : ElementMap) (e : Element) :
    (m.insert e).ids = if e.id ∈ m.ids then m.ids else m.ids ++ [e.id] := by
  rw [ids, elements_insert]
  split
  · rw [map_id_replaceIn, ids]
  · rw [List.map_append, List.map_singleton, ids]

theorem mem_insert : x ∈ (m.insert e).elements ↔ x = e ∨ (x ∈ m.elements ∧ x.id ≠ e.id) := by
  rw [elements_insert]
  by_cases h : e.id ∈ m.ids
  · rw [if_pos h, replaceIn, List.mem_map]
    constructor
    · rintro ⟨y, hy, rfl⟩
      by_cases hid : y.id = e.id
      · rw [if_pos hid]
        exact Or.inl rfl
      · rw [if_neg hid]
        exact Or.inr ⟨hy, hid⟩
    · rintro (rfl | ⟨hx, hid⟩)
      · -- the element takes the place of the one that has its identifier
        obtain ⟨y, hy, hid⟩ := List.mem_map.1 h
        exact ⟨y, hy, if_pos hid⟩
      · exact ⟨x, hx, if_neg hid⟩
  · rw [if_neg h, List.mem_append, List.mem_singleton]
    constructor
    · rintro (hx | rfl)
      · refine Or.inr ⟨hx, fun hid => h ?_⟩
        rw [← hid]
        exact List.mem_map_of_mem hx
      · exact Or.inl rfl
    · rintro (rfl | ⟨hx, -⟩)
      · exact Or.inr rfl
      · exact Or.inl hx

theorem find?_insert (m : ElementMap) (e : Element) (id : String) :
    (m.insert e).find? id = if e.id = id then some e else m.find? id := by
  apply Option.ext
  intro x
  rw [find?_eq_some_iff, mem_insert]
  by_cases h : e.id = id
  · rw [if_pos h, Option.some_inj, ← h]
    constructor
    · rintro ⟨rfl | ⟨-, hne⟩, hid⟩
      · rfl
      · exact absurd hid hne
    · rintro rfl
      exact ⟨Or.inl rfl, rfl⟩
  · rw [if_neg h, find?_eq_some_iff]
    constructor
    · rintro ⟨rfl | ⟨hx, -⟩, hid⟩
      · exact absurd hid h
      · exact ⟨hx, hid⟩
    · rintro ⟨hx, rfl⟩
      exact ⟨Or.inr ⟨hx, fun hid => h hid.symm⟩, rfl⟩

theorem ofList_concat (es : List Element) (e : Element) :
    ofList (es ++ [e]) = (ofList es).insert e := by
  rw [ofList, List.foldl_append, ofList]
  rfl

theorem eraseDups_concat (ids : List String) (id : String) :
    (ids ++ [id]).eraseDups = if id ∈ ids then ids.eraseDups else ids.eraseDups ++ [id] := by
  rw [List.eraseDups_append, List.removeAll]
  by_cases h : id ∈ ids
  · rw [if_pos h, List.filter_cons_of_neg (by simpa using h), List.filter_nil,
      List.eraseDups_nil, List.append_nil]
  · rw [if_neg h, List.filter_cons_of_pos (by simpa using h), List.filter_nil,
      List.eraseDups_cons, List.filter_nil, List.eraseDups_nil]

/-- The identifiers come in the order in which each was first put in. -/
theorem ids_ofList (es : List Element) : (ofList es).ids = (es.map Element.id).eraseDups := by
  induction es using List.reverseRecOn with
  | nil => rfl
  | append_singleton es e ih =>
    rw [ofList_concat, ids_insert, List.map_append, List.map_singleton, eraseDups_concat, ih]
    simp only [List.mem_eraseDups]

/-- What is found under an identifier is what was put in last. -/
theorem find?_ofList (es : List Element) (id : String) :
    (ofList es).find? id = es.reverse.find? (·.id == id) := by
  induction es using List.reverseRecOn with
  | nil => rfl
  | append_singleton es e ih =>
    rw [ofList_concat, find?_insert, List.reverse_append, List.reverse_singleton,
      List.singleton_append, ih]
    by_cases h : e.id = id
    · rw [if_pos h, List.find?_cons_of_pos (by simpa using h)]
    · rw [if_neg h, List.find?_cons_of_neg (by simpa using h)]

end ElementMap

/-! ## What is wrong with one element -/

/-- The elements of a ladder body. -/
def bodyElements (body : Node) : List Node := body.children.filter Node.isElement

/-- The program elements that nodes stand for; those without an identifier stand for none. -/
def declared (nodes : List Node) : List Element :=
  nodes.filterMap fun node => (identifier? node).map (elementOf node)

/-- A connection without a reference. -/
def unreferenced (connection : Node) : List Fault :=
  match reference? connection with
  | none => [.missingReference connection.span]
  | some _ => []

/-- An element whose identifier is that of an earlier one, and the first such. -/
def repeated (earlier : List Node) (node : Node) (id : String) : List Fault :=
  match earlier.find? (identifier? · == some id) with
  | none => []
  | some first => [.repeatedIdentifier id node.startTag first.startTag]

/-- What is wrong with an element of a body, given the elements before it. -/
def elementFaults (earlier : List Node) (node : Node) : List Fault :=
  match identifier? node with
  | none => [.missingIdentifier node.name node.startTag]
  | some id => node.feeds.flatMap unreferenced ++ repeated earlier node id

/-- What an element refers to, and from where.  One without an identifier does not count. -/
def references (node : Node) : List (String × Span) :=
  match identifier? node with
  | none => []
  | some _ => node.feeds.filterMap fun c => (reference? c).map fun id => (id, c.span)

/-- The references to none of the given identifiers. -/
def dangling (ids : List String) (reference : String × Span) : List Fault :=
  if reference.1 ∈ ids then [] else [.unknownReference reference.1 reference.2]

/-- The faults of the elements of a body, one element after another. -/
def faultsOf (nodes : List Node) : List Fault :=
  (nodes.mapIdx fun i node => elementFaults (nodes.take i) node).flatten

theorem faultsOf_concat (nodes : List Node) (node : Node) :
    faultsOf (nodes ++ [node]) = faultsOf nodes ++ elementFaults nodes node := by
  -- one more element behind them changes nothing for those before it
  have hbefore : (nodes.mapIdx fun i x => elementFaults ((nodes ++ [node]).take i) x) =
      nodes.mapIdx fun i x => elementFaults (nodes.take i) x := by
    apply List.ext_getElem?
    intro i
    rw [List.getElem?_mapIdx, List.getElem?_mapIdx]
    cases h : nodes[i]? with
    | none => rfl
    | some x =>
      have hi : i < nodes.length := (List.getElem?_eq_some_iff.1 h).1
      rw [List.take_append_of_le_length (Nat.le_of_lt hi)]
  rw [faultsOf, List.mapIdx_concat, hbefore, List.flatten_append, List.flatten_singleton,
    List.take_left, faultsOf]

/-! ## One element of the body -/

namespace Body

variable {body : Body} {node : Node} {nodes : List Node} {id : String}

theorem readConnection_eq (body : Body) (c : Node) :
    body.readConnection c =
      { body with
        references := body.references ++ ((reference? c).map fun id => (id, c.span)).toList
        faults := body.faults ++ unreferenced c } := by
  rw [readConnection, unreferenced]
  cases reference? c with
  | none => simp [note]
  | some id => simp

theorem foldl_readConnection (body : Body) (cs : List Node) :
    cs.foldl readConnection body =
      { body with
        references := body.references ++
          cs.filterMap fun c => (reference? c).map fun id => (id, c.span)
        faults := body.faults ++ cs.flatMap unreferenced } := by
  induction cs generalizing body with
  | nil => simp
  | cons c cs ih =>
    rw [List.foldl_cons, ih, readConnection_eq, List.flatMap_cons]
    cases h : reference? c with
    | none => simp [h]
    | some id => simp [h]

theorem readElement_of_none (h : identifier? node = none) :
    body.readElement node = body.note (.missingIdentifier node.name node.startTag) := by
  rw [readElement, h]

theorem readElement_of_some (h : identifier? node = some id) :
    body.readElement node =
      { elements := body.elements.insert (elementOf node id)
        firstSeen := match body.firstSeen.lookup id with
          | some _ => body.firstSeen
          | none => body.firstSeen ++ [(id, node.startTag)]
        references := body.references ++ LadderLogic.references node
        faults := body.faults ++ (node.feeds.flatMap unreferenced ++
          match body.firstSeen.lookup id with
          | some first => [.repeatedIdentifier id node.startTag first]
          | none => []) } := by
  rw [readElement, h, LadderLogic.references, h, connections_eq_feeds]
  simp only [foldl_readConnection, see]
  cases body.firstSeen.lookup id with
  | some first => simp [note]
  | none => simp

/-! ## All elements of the body -/

/-- The body holds what the elements amount to. -/
structure Reads (body : Body) (nodes : List Node) : Prop where
  elements : body.elements = .ofList (declared nodes)
  firstSeen : ∀ id, body.firstSeen.lookup id =
    (nodes.find? (identifier? · == some id)).map Node.startTag
  references : body.references = nodes.flatMap LadderLogic.references
  faults : body.faults = faultsOf nodes

theorem reads_empty : empty.Reads [] where
  elements := rfl
  firstSeen _ := rfl
  references := rfl
  faults := rfl

/-- Reading one more element. -/
theorem Reads.step (h : body.Reads nodes) (node : Node) :
    (body.readElement node).Reads (nodes ++ [node]) := by
  cases hid : identifier? node with
  | none =>
    -- only the fault is noted
    rw [readElement_of_none hid]
    refine ⟨?_, ?_, ?_, ?_⟩
    · have hdeclared : declared (nodes ++ [node]) = declared nodes := by
        rw [declared, List.filterMap_append]
        simp [hid, declared]
      rw [hdeclared]
      exact h.elements
    · intro id
      rw [List.find?_append]
      simpa [hid, note] using h.firstSeen id
    · rw [List.flatMap_append, List.flatMap_singleton, LadderLogic.references, hid,
        List.append_nil]
      exact h.references
    · rw [faultsOf_concat, elementFaults, hid, ← h.faults]
      rfl
  | some id =>
    rw [readElement_of_some hid]
    refine ⟨?_, ?_, ?_, ?_⟩
    · have hdeclared : declared (nodes ++ [node]) = declared nodes ++ [elementOf node id] := by
        rw [declared, List.filterMap_append]
        simp [hid, declared]
      rw [hdeclared, ElementMap.ofList_concat, ← h.elements]
    · intro id'
      have hseen := h.firstSeen id'
      rw [List.find?_append]
      by_cases hsame : id' = id
      · subst hsame
        cases hfirst : body.firstSeen.lookup id' with
        | some first =>
          -- the first place stays
          rw [hfirst] at hseen
          obtain ⟨x, hx, -⟩ := Option.map_eq_some_iff.1 hseen.symm
          rw [hx] at hseen ⊢
          simpa [hfirst] using hseen
        | none =>
          rw [hfirst, eq_comm, Option.map_eq_none_iff] at hseen
          rw [hseen]
          simp [hid, List.lookup_append, hfirst]
      · -- another identifier is looked up as before
        have hbeq : (id' == id) = false := beq_eq_false_iff_ne.2 hsame
        have hnode : List.find? (identifier? · == some id') [node] = none := by
          simp [hid, Ne.symm hsame]
        rw [hnode, Option.or_none, ← hseen]
        cases body.firstSeen.lookup id with
        | some first => rfl
        | none =>
          rw [List.lookup_append, List.lookup_cons, hbeq]
          exact Option.or_none
    · rw [List.flatMap_append, List.flatMap_singleton, ← h.references]
    · rw [faultsOf_concat, elementFaults, hid, ← h.faults]
      have hseen := h.firstSeen id
      cases hfirst : nodes.find? (identifier? · == some id) with
      | some first =>
        rw [hfirst, Option.map_some] at hseen
        simp only [hseen, repeated, hfirst]
      | none =>
        rw [hfirst, Option.map_none] at hseen
        simp only [hseen, repeated, hfirst]

theorem reads_foldl (nodes : List Node) : (nodes.foldl readElement empty).Reads nodes := by
  induction nodes using List.reverseRecOn with
  | nil => exact reads_empty
  | append_singleton nodes node ih =>
    rw [List.foldl_append]
    exact ih.step node

/-! ## The check of the references -/

theorem foldl_note_dangling (m : ElementMap) (refs : List (String × Span)) (body : Body) :
    refs.foldl (fun checked (id, connection) =>
        if m.contains id then checked else checked.note (.unknownReference id connection)) body =
      { body with faults := body.faults ++ refs.flatMap (dangling m.ids) } := by
  induction refs generalizing body with
  | nil => simp
  | cons ref refs ih =>
    rw [List.foldl_cons, ih, List.flatMap_cons, dangling]
    by_cases h : ref.1 ∈ m.ids
    · simp [ElementMap.contains, h]
    · simp [ElementMap.contains, h, note]

theorem checkReferences_eq (body : Body) :
    body.checkReferences =
      { body with
        faults := body.faults ++ body.references.flatMap (dangling body.elements.ids) } := by
  rw [checkReferences]
  exact foldl_note_dangling body.elements body.references body

end Body

/-- All faults of the elements of a body, and then the references to none of the keys. -/
def bodyFaults (nodes : List Node) (keys : List String) : List Fault :=
  faultsOf nodes ++ (nodes.flatMap references).flatMap (dangling keys)

/-- A ladder body as it is read. -/
theorem Body.read_eq (node : Node) :
    (read node).elements = .ofList (declared (bodyElements node)) ∧
      (read node).faults = bodyFaults (bodyElements node) (read node).elements.ids := by
  have hreads := reads_foldl (bodyElements node)
  have hread : read node = ((bodyElements node).foldl readElement empty).checkReferences := rfl
  rw [hread, checkReferences_eq]
  refine ⟨hreads.elements, ?_⟩
  simp only [hreads.elements, hreads.references, hreads.faults, bodyFaults]

theorem map_id_declared (nodes : List Node) :
    (declared nodes).map Element.id = nodes.filterMap identifier? := by
  rw [declared, List.map_filterMap]
  apply List.filterMap_congr
  intro node _
  cases identifier? node with
  | none => rfl
  | some id => rfl

/-! ## The whole reading -/

/-- Only these two keep a program from being read. -/
def Fault.isFatal : Fault → Bool
  | .malformedDocument _ | .missingBody _ _ => true
  | _ => false

theorem Fault.isError_diagnostic (source : List Char) (f : Fault) :
    (f.diagnostic source).isError = f.isFatal := by
  cases f <;> rfl

theorem isFatal_of_mem_unreferenced {f : Fault} {c : Node} (h : f ∈ unreferenced c) :
    f.isFatal = false := by
  rw [unreferenced] at h
  cases hc : reference? c with
  | none =>
    rw [hc] at h
    rw [List.mem_singleton.1 h]
    rfl
  | some id =>
    rw [hc] at h
    exact absurd h List.not_mem_nil

theorem isFatal_of_mem_elementFaults {f : Fault} {earlier : List Node} {node : Node}
    (h : f ∈ elementFaults earlier node) : f.isFatal = false := by
  rw [elementFaults] at h
  cases hid : identifier? node with
  | none =>
    rw [hid] at h
    rw [List.mem_singleton.1 h]
    rfl
  | some id =>
    rw [hid] at h
    rcases List.mem_append.1 h with h | h
    · obtain ⟨c, -, hc⟩ := List.mem_flatMap.1 h
      exact isFatal_of_mem_unreferenced hc
    · rw [repeated] at h
      cases hfirst : earlier.find? (identifier? · == some id) with
      | none =>
        rw [hfirst] at h
        exact absurd h List.not_mem_nil
      | some first =>
        rw [hfirst] at h
        rw [List.mem_singleton.1 h]
        rfl

theorem isFatal_of_mem_dangling {f : Fault} {ids : List String} {reference : String × Span}
    (h : f ∈ dangling ids reference) : f.isFatal = false := by
  rw [dangling] at h
  split at h
  · exact absurd h List.not_mem_nil
  · rw [List.mem_singleton.1 h]
    rfl

/-- No fault of a body is fatal. -/
theorem isFatal_of_mem_bodyFaults {f : Fault} {nodes : List Node} {keys : List String}
    (h : f ∈ bodyFaults nodes keys) : f.isFatal = false := by
  rcases List.mem_append.1 h with h | h
  · obtain ⟨fs, hfs, hf⟩ := List.mem_flatten.1 h
    obtain ⟨i, hi, rfl⟩ := List.mem_mapIdx.1 hfs
    exact isFatal_of_mem_elementFaults hf
  · obtain ⟨reference, -, hf⟩ := List.mem_flatMap.1 h
    exact isFatal_of_mem_dangling hf

/-- A document with a ladder body is read, whatever is wrong with the body. -/
theorem Reading.ofDocument_eq (source : List Char) {root body : Node}
    (h : ladderBody? root = some body) :
    ∃ reading, ofDocument source root = .ok reading ∧
      reading.elements = .ofList (declared (bodyElements body)) ∧
      reading.warnings =
        (bodyFaults (bodyElements body) reading.elements.ids).map (Fault.diagnostic source) := by
  obtain ⟨helements, hfaults⟩ := Body.read_eq body
  have hwarnings : ((Body.read body).faults.map (Fault.diagnostic source)).any
      Diagnostic.isError = false := by
    rw [hfaults, List.any_map, List.any_eq_false]
    intro f hf
    rw [Function.comp_apply, Fault.isError_diagnostic, isFatal_of_mem_bodyFaults hf]
    exact Bool.false_ne_true
  refine ⟨⟨(Body.read body).elements, (Body.read body).faults.map (Fault.diagnostic source)⟩,
    ?_, helements, congrArg (List.map (Fault.diagnostic source)) hfaults⟩
  simp only [ofDocument, h, Diagnostic.Collector.finish_foldl_emit, hwarnings,
    Bool.false_eq_true, if_false]
  rfl

end LadderLogic
