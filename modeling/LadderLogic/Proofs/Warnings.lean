/-
The warnings about a ladder body say all that is wrong with it and nothing else.

`bodyFaults` lists the faults of a body without an accumulator: those of each element in
turn, then the references that name no element.  `Fault.ShownBy` says what a diagnostic has
to show for a fault, code and labels.  A body without faults is a clean one: every element
has an identifier of its own and every connection leads to one of them
(`bodyFaults_eq_nil_iff`).
-/

import LadderLogic.Proofs.Declarations

namespace LadderLogic

open Markup (Node)

/-! ## What warnings show -/

/-- The diagnostic is a warning with this code and these labels; the primary one is marked. -/
def Diagnostic.Warns (d : Diagnostic) (code : String) (labels : List (Span × Bool)) : Prop :=
  d.severity = .warning ∧ d.code.map DiagnosticCode.text = some code ∧
    d.labels.map (fun l => (l.span, l.primary)) = labels

/-- The warning shows the fault. -/
def Fault.ShownBy : Fault → Diagnostic → Prop
  | .missingIdentifier _ tag, d => d.Warns "E200" [(tag, true)]
  | .repeatedIdentifier _ tag first, d => d.Warns "E201" [(tag, true), (first, false)]
  | .missingReference connection, d => d.Warns "E202" [(connection, true)]
  | .unknownReference id connection, d => d.Warns "E203" [(connection, true)] ∧
      d.message = "connection refers to unknown element `" ++ id ++ "`"
  | .malformedDocument _, _ | .missingBody _ _, _ => False

theorem Fault.shownBy_diagnostic (source : List Char) {f : Fault} (h : f.isFatal = false) :
    f.ShownBy (f.diagnostic source) := by
  cases f with
  | malformedDocument error => cases h
  | missingBody root tag => cases h
  | missingIdentifier name tag => exact ⟨rfl, rfl, rfl⟩
  | repeatedIdentifier id tag first => exact ⟨rfl, rfl, rfl⟩
  | missingReference connection => exact ⟨rfl, rfl, rfl⟩
  | unknownReference id connection => exact ⟨⟨rfl, rfl, rfl⟩, rfl⟩

/-! ## Bodies without faults -/

variable {node : Node} {nodes : List Node} {ids : List String}

theorem unreferenced_eq_nil_iff {c : Node} :
    unreferenced c = [] ↔ ∃ id, reference? c = some id := by
  rw [unreferenced]
  cases reference? c with
  | none => simp
  | some id => simp

theorem repeated_eq_nil_iff {earlier : List Node} {id : String} :
    repeated earlier node id = [] ↔ id ∉ earlier.filterMap identifier? := by
  rw [repeated]
  cases h : earlier.find? (identifier? · == some id) with
  | none =>
    rw [List.find?_eq_none] at h
    simpa using h
  | some first =>
    have hid : identifier? first = some id := by simpa using List.find?_some h
    have hmem : id ∈ earlier.filterMap identifier? :=
      List.mem_filterMap.2 ⟨first, List.mem_of_find?_eq_some h, hid⟩
    simp [hmem]

/-- An element is in order when its identifier is new and its connections refer to
something. -/
theorem elementFaults_eq_nil_iff {earlier : List Node} :
    elementFaults earlier node = [] ↔
      (∃ id, identifier? node = some id ∧ id ∉ earlier.filterMap identifier?) ∧
        ∀ c ∈ node.feeds, ∃ id, reference? c = some id := by
  rw [elementFaults]
  cases identifier? node with
  | none => simp
  | some id =>
    simp only [List.append_eq_nil_iff, List.flatMap_eq_nil_iff, unreferenced_eq_nil_iff,
      repeated_eq_nil_iff, Option.some_inj, exists_eq_left']
    exact And.comm

theorem faultsOf_eq_nil_iff :
    faultsOf nodes = [] ↔
      (∀ node ∈ nodes, ∃ id, identifier? node = some id) ∧
        (nodes.filterMap identifier?).Nodup ∧
        ∀ node ∈ nodes, ∀ c ∈ node.feeds, ∃ id, reference? c = some id := by
  induction nodes using List.reverseRecOn with
  | nil => simp [faultsOf]
  | append_singleton nodes node ih =>
    rw [faultsOf_concat, List.append_eq_nil_iff, ih, elementFaults_eq_nil_iff,
      List.filterMap_append]
    simp only [List.forall_mem_append, List.forall_mem_singleton]
    constructor
    · rintro ⟨⟨hids, hnodup, hrefs⟩, ⟨id, hid, hnew⟩, hfeeds⟩
      refine ⟨⟨hids, id, hid⟩, ?_, hrefs, hfeeds⟩
      -- the identifier of the last element is none of those before
      rw [List.filterMap_cons_some hid, List.filterMap_nil, ← List.concat_eq_append,
        List.nodup_concat]
      exact ⟨hnew, hnodup⟩
    · rintro ⟨⟨hids, id, hid⟩, hnodup, hrefs, hfeeds⟩
      rw [List.filterMap_cons_some hid, List.filterMap_nil, ← List.concat_eq_append,
        List.nodup_concat] at hnodup
      exact ⟨⟨hids, hnodup.2, hrefs⟩, ⟨id, hid, hnodup.1⟩, hfeeds⟩

theorem mem_references {reference : String × Span} :
    reference ∈ references node ↔ (∃ id, identifier? node = some id) ∧
      ∃ c ∈ node.feeds, reference? c = some reference.1 ∧ c.span = reference.2 := by
  rw [references]
  cases identifier? node with
  | none => simp
  | some id =>
    simp only [List.mem_filterMap, Option.map_eq_some_iff, Option.some_inj, exists_eq', true_and]
    constructor
    · rintro ⟨c, hc, target, htarget, rfl⟩
      exact ⟨c, hc, htarget, rfl⟩
    · rintro ⟨c, hc, htarget, hspan⟩
      exact ⟨c, hc, reference.1, htarget, by rw [hspan]⟩

theorem dangling_eq_nil_iff {reference : String × Span} :
    dangling ids reference = [] ↔ reference.1 ∈ ids := by
  rw [dangling]
  split
  · next h => simp [h]
  · next h => simp [h]

/-- A clean body: every element has an identifier of its own, and every connection leads to
a key. -/
theorem bodyFaults_eq_nil_iff {keys : List String} :
    bodyFaults nodes keys = [] ↔
      (∀ node ∈ nodes, ∃ id, identifier? node = some id) ∧
        (nodes.filterMap identifier?).Nodup ∧
        ∀ node ∈ nodes, ∀ c ∈ node.feeds, ∃ id, reference? c = some id ∧ id ∈ keys := by
  rw [bodyFaults, List.append_eq_nil_iff, faultsOf_eq_nil_iff, List.flatMap_eq_nil_iff]
  simp only [dangling_eq_nil_iff, List.mem_flatMap]
  constructor
  · rintro ⟨⟨hids, hnodup, hrefs⟩, hknown⟩
    refine ⟨hids, hnodup, ?_⟩
    intro node hnode c hc
    obtain ⟨id, hid⟩ := hrefs node hnode c hc
    have hmem : (id, c.span) ∈ references node :=
      mem_references.2 ⟨hids node hnode, c, hc, hid, rfl⟩
    exact ⟨id, hid, hknown (id, c.span) ⟨node, hnode, hmem⟩⟩
  · rintro ⟨hids, hnodup, hrefs⟩
    refine ⟨⟨hids, hnodup, ?_⟩, ?_⟩
    · intro node hnode c hc
      obtain ⟨id, hid, -⟩ := hrefs node hnode c hc
      exact ⟨id, hid⟩
    · rintro reference ⟨node, hnode, hmem⟩
      obtain ⟨-, c, hc, hid, -⟩ := mem_references.1 hmem
      obtain ⟨id, hid', hknown⟩ := hrefs node hnode c hc
      rw [hid] at hid'
      cases hid'
      exact hknown

/-! ## References to nothing -/

/-- An input that is no key comes from a connection, and that is a fault. -/
theorem exists_unknownReference {e : Element} {id : String} {keys : List String}
    (he : e ∈ (ElementMap.ofList (declared nodes)).elements) (hid : id ∈ e.inputs)
    (hunknown : id ∉ keys) :
    ∃ node ∈ nodes, ∃ p ∈ node.descendants, ∃ c ∈ p.children,
      p.isNamed "connectionPointIn" = true ∧ c.isNamed "connection" = true ∧
      c.attribute? "refLocalId" = some id ∧
      .unknownReference id c.span ∈ bodyFaults nodes keys := by
  -- the element is what one of the nodes declares
  have hfound := ElementMap.find?_of_mem he
  obtain ⟨before, node, after, hsplit, hdeclares, -⟩ := find?_declared_eq_some_iff.1 hfound
  have hnode : node ∈ nodes := by
    rw [hsplit]
    exact List.mem_append_right _ List.mem_cons_self
  obtain ⟨own, hown, rfl⟩ := declares_iff.1 hdeclares
  obtain ⟨c, hc, hreference⟩ := List.mem_filterMap.1 hid
  rw [connections_eq_feeds] at hc
  obtain ⟨p, hp, hpoint, hchild, hconnection⟩ := Node.mem_feeds.1 hc
  refine ⟨node, hnode, p, hp, c, hchild, hpoint, hconnection,
    (filled?_eq_some_iff.1 hreference).1, ?_⟩
  -- its reference is checked at the end, and found to name nothing
  have hmem : (id, c.span) ∈ nodes.flatMap references :=
    List.mem_flatMap.2 ⟨node, hnode, mem_references.2 ⟨⟨own, hown⟩, c, hc, hreference, rfl⟩⟩
  refine List.mem_append_right _ (List.mem_flatMap.2 ⟨_, hmem, ?_⟩)
  rw [dangling, if_neg hunknown]
  exact List.mem_singleton.2 rfl

/-- **Warnings are complete, sound and in order.**  They are those of each element of the
body in turn, then one for each reference of an identified element that is no key of the
map.  So an input that names no element has a warning, and a reading without warnings is
one of a clean body. -/
theorem Reading.warnings_exact (source : String) {root body : Node}
    (h : Node.IsFirstNamed "LD" (root :: root.contents) body) :
    ∃ reading, ofDocument source.toList root = .ok reading ∧
      (Markup.Document.read source.toList = .ok root → ofSource source = .ok reading) ∧
      reading.warnings = (bodyFaults (bodyElements body) reading.elements.ids).map
        (Fault.diagnostic source.toList) ∧
      List.Forall₂ Fault.ShownBy (bodyFaults (bodyElements body) reading.elements.ids)
        reading.warnings ∧
      (∀ e ∈ reading.elements.elements, ∀ id ∈ e.inputs, id ∉ reading.elements.ids →
        ∃ node ∈ bodyElements body, ∃ p ∈ node.descendants, ∃ c ∈ p.children,
          p.isNamed "connectionPointIn" = true ∧ c.isNamed "connection" = true ∧
          c.attribute? "refLocalId" = some id ∧
          ∃ w ∈ reading.warnings, (Fault.unknownReference id c.span).ShownBy w) ∧
      (reading.warnings = [] ↔
        (∀ node ∈ bodyElements body, ∃ id, identifier? node = some id) ∧
        ((bodyElements body).filterMap identifier?).Nodup ∧
        ∀ node ∈ bodyElements body, ∀ c ∈ node.feeds, ∃ id, reference? c = some id ∧
          id ∈ reading.elements.ids) := by
  obtain ⟨reading, hreading, helements, hwarnings⟩ :=
    ofDocument_eq source.toList (ladderBody?_eq_some_iff.2 h)
  refine ⟨reading, hreading, ?_, hwarnings, ?_, ?_, ?_⟩
  · intro hread
    rw [ofSource_eq_ofDocument hread, hreading]
  · rw [hwarnings, List.forall₂_map_right_iff, List.forall₂_same]
    intro f hf
    exact Fault.shownBy_diagnostic source.toList (isFatal_of_mem_bodyFaults hf)
  · intro e he id hid hunknown
    rw [helements] at he
    obtain ⟨node, hnode, p, hp, c, hc, hpoint, hconnection, hreference, hfault⟩ :=
      exists_unknownReference he hid hunknown
    refine ⟨node, hnode, p, hp, c, hc, hpoint, hconnection, hreference, _, ?_,
      Fault.shownBy_diagnostic source.toList rfl⟩
    rw [hwarnings]
    exact List.mem_map_of_mem hfault
  · rw [hwarnings, List.map_eq_nil_iff]
    exact bodyFaults_eq_nil_iff

theorem Reading.warnings_exact_patched :
    Node.IsFirstNamed "LD" (patchedProject :: patchedProject.contents) patchedBody ∧
    ∃ reading, ofDocument "".toList patchedProject = .ok reading ∧
      List.Forall₂ Fault.ShownBy
        [.missingIdentifier "contact" (.between 145 168), .missingReference (.between 295 308),
          .repeatedIdentifier "5" (.between 335 371) (.between 68 89),
          .unknownReference "9" (.between 418 446)]
        reading.warnings := by
  obtain ⟨reading, hreading, -, -, hshown, -⟩ := warnings_exact "" isFirstNamed_patchedBody
  refine ⟨isFirstNamed_patchedBody, reading, hreading, ?_⟩
  -- the reading is known, and with it the keys that references are checked against
  have hids : reading.elements.ids = ["5", "6"] := by
    have hread : (ofDocument "".toList patchedProject).map (·.elements.ids) = .ok ["5", "6"] := by
      decide +kernel
    rw [hreading] at hread
    exact Except.ok.inj hread
  have hfaults : bodyFaults (bodyElements patchedBody) ["5", "6"] =
      [.missingIdentifier "contact" (.between 145 168), .missingReference (.between 295 308),
        .repeatedIdentifier "5" (.between 335 371) (.between 68 89),
        .unknownReference "9" (.between 418 446)] := by
    decide +kernel
  rw [hids, hfaults] at hshown
  exact hshown

end LadderLogic
