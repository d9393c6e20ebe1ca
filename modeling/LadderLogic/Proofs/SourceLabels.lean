/-
Every diagnostic points into the source.

A reader moves a cursor over the source, and a cursor stands between two characters of it
(`Cursor.Reaches.isBoundary`).  The spans of a document are made of the places where the
cursor has been:

  * `Step` lists what one construct does to the open elements; `content_run` says once that
    the reading of an element is a run of such steps, so that what a step keeps holds of the
    element that comes out.
  * `Node.Placed` says that a node and all nodes in it have their spans on boundaries.  A
    step keeps it (`Step.placed`), hence every document is placed (`Document.placed_of_read`).

Labels have spans of three kinds: those of nodes, those of start tags, which end at the first
node inside, and the character at a row and a column.  The first two are placed because
the nodes are, the third for any row and column.  A report shows a label by its first byte and
its length, and loses nothing of it.
-/

import LadderLogic.Proofs.BodyReading
import LadderLogic.Proofs.SourcePositions
import LadderLogic.Render

namespace LadderLogic

open Text

/-! ## Spans on boundaries -/

/-- Both ends of the span stand between characters of the text. -/
def Span.OnBoundaries (text : List Char) (s : Span) : Prop :=
  IsBoundary text s.start ∧ IsBoundary text s.stop

theorem Span.onBoundaries_between {text : List Char} {start stop : Nat}
    (hstart : IsBoundary text start) (hstop : IsBoundary text stop) :
    (Span.between start stop).OnBoundaries text := by
  refine ⟨hstart, ?_⟩
  -- the span ends at the later one of the two offsets
  show IsBoundary text (max start stop)
  rcases Nat.le_total start stop with h | h
  · rwa [Nat.max_eq_right h]
  · rwa [Nat.max_eq_left h]

namespace Markup

variable {text : List Char}

theorem Cursor.Reaches.isBoundary {a : Cursor} (h : (Cursor.start text).Reaches a) :
    IsBoundary text a.offset := by
  obtain ⟨read, hrest, hoffset⟩ := h
  refine ⟨read, a.rest, hrest, ?_⟩
  rw [hoffset]
  exact Nat.zero_add _

/-- The spans of the node and of all nodes in it are on boundaries. -/
inductive Node.Placed (text : List Char) : Node → Prop
  | element {span : Span} {name : String} {attributes : List Attribute} {children : List Node}
      (hspan : span.OnBoundaries text) (hchildren : ∀ c ∈ children, Placed text c) :
      Placed text (.element span name attributes children)
  | text {span : Span} {content : String} (hspan : span.OnBoundaries text) :
      Placed text (.text span content)
  | aside {span : Span} (hspan : span.OnBoundaries text) : Placed text (.aside span)

namespace Node.Placed

variable {node : Node}

theorem span (h : node.Placed text) : node.span.OnBoundaries text := by
  cases h with
  | element hspan _ => exact hspan
  | text hspan => exact hspan
  | aside hspan => exact hspan

theorem child (h : node.Placed text) {c : Node} (hc : c ∈ node.children) : c.Placed text := by
  cases h with
  | element _ hchildren => exact hchildren c hc
  | text _ => exact absurd hc List.not_mem_nil
  | aside _ => exact absurd hc List.not_mem_nil

theorem startTag (h : node.Placed text) : node.startTag.OnBoundaries text := by
  rw [Node.startTag]
  cases hchildren : node.children with
  | nil => exact h.span
  | cons c rest =>
    have hc : c.Placed text := h.child (by rw [hchildren]; exact List.mem_cons_self)
    exact Span.onBoundaries_between h.span.1 hc.span.1

end Node.Placed

theorem Node.mem_descendantsOf {nodes : List Node} {x : Node} :
    x ∈ descendantsOf nodes ↔ ∃ node ∈ nodes, x ∈ node.descendants := by
  induction nodes with
  | nil => simp [descendantsOf]
  | cons node rest ih => rw [descendantsOf, List.mem_append, ih, List.exists_mem_cons_iff]

theorem Node.Placed.descendant {node : Node} (h : node.Placed text) :
    ∀ x ∈ node.descendants, x.Placed text := by
  induction h with
  | element hspan hchildren ih =>
    rw [Node.descendants]
    refine List.forall_mem_cons.2 ⟨.element hspan hchildren, ?_⟩
    intro x hx
    obtain ⟨c, hc, hx⟩ := Node.mem_descendantsOf.1 hx
    exact ih c hc x hx
  | text hspan =>
    intro x hx
    cases List.mem_singleton.1 hx
    exact .text hspan
  | aside hspan =>
    intro x hx
    cases List.mem_singleton.1 hx
    exact .aside hspan

theorem Node.Placed.feed {node c : Node} (h : node.Placed text) (hc : c ∈ node.feeds) :
    c.Placed text := by
  obtain ⟨p, hp, -, hchild, -⟩ := Node.mem_feeds.1 hc
  exact (h.descendant p hp).child hchild

/-! ## The content of an element -/

/-- What one construct does to the innermost open element, the ones around it and the
cursor. -/
inductive Step : Frame → List Frame → Cursor → Frame → List Frame → Cursor → Prop
  | aside {inner outer a b} (hb : a.Reaches b) :
      Step inner outer a (inner.push (.aside (Span.between a.offset b.offset))) outer b
  | text {inner outer a b} (content : String) (hb : a.Reaches b) :
      Step inner outer a (inner.pushText a.offset b.offset content) outer b
  | opened {inner outer a b} (tag : Tag) (hb : a.Reaches b) :
      Step inner outer a ⟨a.offset, tag, []⟩ (inner :: outer) b
  | closed {inner next outer a b} (hb : a.Reaches b) :
      Step inner (next :: outer) a (next.push (inner.close b.offset)) outer b
  | empty {inner outer a b} (tag : Tag) (hb : a.Reaches b) :
      Step inner outer a (inner.push ((Frame.mk a.offset tag []).close b.offset)) outer b

/-- The reading of an element is a run of steps.  What the steps keep holds when the outermost
element is closed. -/
theorem content_run {P : Frame → List Frame → Cursor → Prop} {inner : Frame} {outer : List Frame}
    {a b : Cursor} {node : Node}
    (hstep : ∀ {i o a i' o' a'}, Step i o a i' o' a' → P i o a → P i' o' a')
    (hstart : P inner outer a) (h : content inner outer a = .ok (node, b)) :
    ∃ last c, P last [] c ∧ c.Reaches b ∧ node = last.close b.offset := by
  -- a construct is read from behind its opening, which has a fixed number of characters
  have hreach : ∀ {a b : Cursor} (count : Nat), (a.drop count).Reaches b → a.Reaches b :=
    fun count hb => (Cursor.reaches_drop _ count).trans hb
  fun_induction content inner outer a
  case case3 hd _ _ ih => exact ih (hstep (.aside (hreach 4 hd)) hstart) h
  case case5 body _ hb _ _ ih => exact ih (hstep (.text _ (hreach 9 hb)) hstart) h
  case case8 hd _ _ ih => exact ih (hstep (.aside (hreach 2 hd)) hstart) h
  case case10 inner a _ _ _ _ _ b' hb _ =>
    -- the end tag of the outermost element
    cases h
    exact ⟨inner, a, hstart, hreach 2 hb, rfl⟩
  case case11 hb _ _ _ _ ih => exact ih (hstep (.closed (hreach 2 hb)) hstart) h
  case case15 tag _ hb _ _ _ ih => exact ih (hstep (.empty tag (hreach 1 hb)) hstart) h
  case case16 tag _ hb _ _ _ ih => exact ih (hstep (.opened tag (hreach 1 hb)) hstart) h
  case case20 hb _ _ _ _ _ ih => exact ih (hstep (.text _ (hreach 1 hb)) hstart) h
  all_goals cases h

/-- The element began at a boundary, and everything read in it so far is placed. -/
structure Frame.Placed (text : List Char) (f : Frame) : Prop where
  offset : IsBoundary text f.offset
  nodes : ∀ node ∈ f.nodes, node.Placed text

theorem Frame.placed_of_opened {offset : Nat} (h : IsBoundary text offset) (tag : Tag) :
    (Frame.mk offset tag []).Placed text :=
  ⟨h, fun _ hnode => absurd hnode List.not_mem_nil⟩

namespace Frame.Placed

variable {f : Frame}

theorem push (h : f.Placed text) {node : Node} (hnode : node.Placed text) :
    (f.push node).Placed text :=
  ⟨h.offset, List.forall_mem_cons.2 ⟨hnode, h.nodes⟩⟩

theorem pushText (h : f.Placed text) {start stop : Nat} (hstart : IsBoundary text start)
    (hstop : IsBoundary text stop) (content : String) :
    (f.pushText start stop content).Placed text := by
  rw [Frame.pushText]
  split
  · -- text goes on from the text before it, and ends where the new piece does
    next before content' rest hnodes =>
    have hnodes' := h.nodes
    rw [hnodes] at hnodes'
    obtain ⟨hfirst, hrest⟩ := List.forall_mem_cons.1 hnodes'
    exact ⟨h.offset, List.forall_mem_cons.2
      ⟨.text (Span.onBoundaries_between hfirst.span.1 hstop), hrest⟩⟩
  · exact h.push (.text (Span.onBoundaries_between hstart hstop))

theorem close (h : f.Placed text) {stop : Nat} (hstop : IsBoundary text stop) :
    (f.close stop).Placed text := by
  refine .element (Span.onBoundaries_between h.offset hstop) ?_
  intro c hc
  exact h.nodes c (List.mem_reverse.1 hc)

end Frame.Placed

/-- All open elements are placed, and the cursor stands in the text. -/
structure OpenPlaced (text : List Char) (inner : Frame) (outer : List Frame) (a : Cursor) :
    Prop where
  inner : inner.Placed text
  outer : ∀ f ∈ outer, f.Placed text
  cursor : (Cursor.start text).Reaches a

theorem Step.placed {i i' : Frame} {o o' : List Frame} {a a' : Cursor}
    (hstep : Step i o a i' o' a') (h : OpenPlaced text i o a) : OpenPlaced text i' o' a' := by
  have hoffset := h.cursor.isBoundary
  cases hstep with
  | aside hb =>
    have hcursor := h.cursor.trans hb
    exact ⟨h.inner.push (.aside (Span.onBoundaries_between hoffset hcursor.isBoundary)), h.outer,
      hcursor⟩
  | text content hb =>
    have hcursor := h.cursor.trans hb
    exact ⟨h.inner.pushText hoffset hcursor.isBoundary content, h.outer, hcursor⟩
  | opened tag hb =>
    exact ⟨Frame.placed_of_opened hoffset tag, List.forall_mem_cons.2 ⟨h.inner, h.outer⟩,
      h.cursor.trans hb⟩
  | closed hb =>
    have hcursor := h.cursor.trans hb
    obtain ⟨hnext, houter⟩ := List.forall_mem_cons.1 h.outer
    exact ⟨hnext.push (h.inner.close hcursor.isBoundary), houter, hcursor⟩
  | empty tag hb =>
    have hcursor := h.cursor.trans hb
    have hframe := Frame.placed_of_opened hoffset tag
    exact ⟨h.inner.push (hframe.close hcursor.isBoundary), h.outer, hcursor⟩

theorem placed_of_rootElement {a b : Cursor} {root : Node} (ha : (Cursor.start text).Reaches a)
    (h : rootElement a = .ok (some root, b)) : root.Placed text := by
  rw [rootElement] at h
  split at h
  · cases h
  · cases h
  · next tag c hc _ =>
    have hcursor := ha.trans ((a.reaches_drop 1).trans hc)
    have hframe := Frame.placed_of_opened ha.isBoundary tag
    dsimp only at h
    split at h
    · cases h
      exact hframe.close hcursor.isBoundary
    · cases hcontent : content ⟨a.offset, tag, []⟩ [] c with
      | error e =>
        rw [hcontent] at h
        cases h
      | ok result =>
        rw [hcontent] at h
        cases h
        have hopen : OpenPlaced text ⟨a.offset, tag, []⟩ [] c :=
          ⟨hframe, fun _ hf => absurd hf List.not_mem_nil, hcursor⟩
        obtain ⟨last, d, hlast, hd, hroot⟩ := content_run Step.placed hopen hcontent
        rw [hroot]
        exact hlast.inner.close (hlast.cursor.trans hd).isBoundary

/-! ## Documents -/

theorem exists_of_bind {ε α β : Type} {x : Except ε α} {f : α → Except ε β} {r : β}
    (h : x >>= f = .ok r) : ∃ a, x = .ok a ∧ f a = .ok r := by
  cases x with
  | error e => cases h
  | ok a => exact ⟨a, rfl, h⟩

theorem reaches_of_map {α : Type} {a b : Cursor} {x : Except Error (Scanned α a)}
    (h : x.map (·.next) = .ok b) : a.Reaches b := by
  cases x with
  | error e => cases h
  | ok scanned =>
    cases h
    exact scanned.reaches

theorem reaches_skipMark (a : Cursor) : a.Reaches (skipMark a) := by
  rw [skipMark]
  split
  · exact a.reaches_drop 1
  · exact .refl a

/-- Behind the declaration, if there is one, reading goes on further on in the text. -/
theorem exists_behind_declaration {a : Cursor} {p : Prop} [Decidable p] {β : Type}
    {rest : Cursor → Except Error β} {r : β}
    (h : (if p then (declaration (a.drop 5)).map (·.next) >>= rest else .ok a >>= rest) = .ok r) :
    ∃ b, a.Reaches b ∧ rest b = .ok r := by
  split at h
  · obtain ⟨b, hb, h⟩ := exists_of_bind h
    exact ⟨b, (a.reaches_drop 5).trans (reaches_of_map hb), h⟩
  · exact ⟨a, .refl a, h⟩

/-- The root of a document is read from somewhere in the text. -/
theorem Document.exists_rootElement {root : Node} (h : Document.read text = .ok root) :
    ∃ a b, (Cursor.start text).Reaches a ∧ rootElement a = .ok (some root, b) := by
  rw [Document.read] at h
  obtain ⟨a, ha, h⟩ := exists_behind_declaration h
  obtain ⟨b, hb, h⟩ := exists_of_bind h
  dsimp only at h
  split at h
  · obtain ⟨_, hdoctype, -⟩ := exists_of_bind h
    cases hdoctype
  · have hreach : (Cursor.start text).Reaches b :=
      (reaches_skipMark _).trans (ha.trans (reaches_of_map hb))
    split at h
    · obtain ⟨⟨found, c⟩, hfound, h⟩ := exists_of_bind h
      obtain ⟨d, -, h⟩ := exists_of_bind h
      -- only a document that ends here, with a root, is read
      split at h
      · cases h
      · cases h
      · next hroot =>
        cases h
        cases hroot
        exact ⟨b, c, hreach, hfound⟩
    · -- without an element there is no root
      obtain ⟨⟨found, c⟩, hfound, h⟩ := exists_of_bind h
      cases hfound
      obtain ⟨d, -, h⟩ := exists_of_bind h
      split at h
      · cases h
      · cases h
      · next hroot => cases hroot

/-- The nodes of a document have their spans on boundaries of its source. -/
theorem Document.placed_of_read {root : Node} (h : Document.read text = .ok root) :
    root.Placed text := by
  obtain ⟨a, b, ha, hroot⟩ := Document.exists_rootElement h
  exact placed_of_rootElement ha hroot

end Markup

open Markup (Node)

/-! ## Faults -/

variable {text : List Char} {f : Fault} {node : Node} {nodes : List Node}

/-- The spans that a fault is shown with. -/
def Fault.spans : Fault → List Span
  | .malformedDocument _ => []
  | .missingBody _ tag | .missingIdentifier _ tag => [tag]
  | .repeatedIdentifier _ tag first => [tag, first]
  | .missingReference connection | .unknownReference _ connection => [connection]

/-- All spans of the fault are on boundaries. -/
def Fault.Placed (text : List Char) (f : Fault) : Prop := ∀ s ∈ f.spans, s.OnBoundaries text

/-- The labels of a placed fault are on boundaries.  The place where reading stopped is found
again by row and column, and needs nothing. -/
theorem Fault.Placed.labels (h : f.Placed text) :
    ∀ l ∈ (f.diagnostic text).labels, l.span.OnBoundaries text := by
  intro l hl
  cases f with
  | malformedDocument error =>
    cases List.mem_singleton.1 hl
    obtain ⟨covered, hcovers, -⟩ := Span.exists_covered text (error.position text)
    exact hcovers.isBoundary
  | missingBody root tag =>
    cases List.mem_singleton.1 hl
    exact h tag List.mem_cons_self
  | missingIdentifier name tag =>
    cases List.mem_singleton.1 hl
    exact h tag List.mem_cons_self
  | repeatedIdentifier id tag first =>
    rcases List.mem_pair.1 hl with rfl | rfl
    · exact h tag List.mem_cons_self
    · exact h first (List.mem_cons_of_mem tag List.mem_cons_self)
  | missingReference connection =>
    cases List.mem_singleton.1 hl
    exact h connection List.mem_cons_self
  | unknownReference id connection =>
    cases List.mem_singleton.1 hl
    exact h connection List.mem_cons_self

theorem Fault.placed_of_spans {s : Span} (hspans : f.spans = [s]) (hs : s.OnBoundaries text) :
    f.Placed text := by
  intro s' hs'
  rw [hspans] at hs'
  rwa [List.mem_singleton.1 hs']

theorem placed_of_mem_unreferenced {c : Node} (hc : c.Placed text) (hf : f ∈ unreferenced c) :
    f.Placed text := by
  rw [unreferenced] at hf
  split at hf
  · cases List.mem_singleton.1 hf
    exact Fault.placed_of_spans rfl hc.span
  · cases hf

theorem placed_of_mem_repeated {earlier : List Node} {id : String}
    (hearlier : ∀ x ∈ earlier, x.Placed text) (hnode : node.Placed text)
    (hf : f ∈ repeated earlier node id) : f.Placed text := by
  rw [repeated] at hf
  split at hf
  · cases hf
  · next first hfirst =>
    have hplaced := hearlier first (List.mem_of_find?_eq_some hfirst)
    cases List.mem_singleton.1 hf
    intro s hs
    rcases List.mem_pair.1 hs with rfl | rfl
    · exact hnode.startTag
    · exact hplaced.startTag

theorem placed_of_mem_elementFaults {earlier : List Node}
    (hearlier : ∀ x ∈ earlier, x.Placed text) (hnode : node.Placed text)
    (hf : f ∈ elementFaults earlier node) : f.Placed text := by
  rw [elementFaults] at hf
  split at hf
  · cases List.mem_singleton.1 hf
    exact Fault.placed_of_spans rfl hnode.startTag
  · rcases List.mem_append.1 hf with hf | hf
    · obtain ⟨c, hc, hf⟩ := List.mem_flatMap.1 hf
      exact placed_of_mem_unreferenced (hnode.feed hc) hf
    · exact placed_of_mem_repeated hearlier hnode hf

theorem placed_of_mem_dangling {ids : List String} (hnode : node.Placed text)
    {reference : String × Span} (hreference : reference ∈ references node)
    (hf : f ∈ dangling ids reference) : f.Placed text := by
  rw [references] at hreference
  split at hreference
  · cases hreference
  · obtain ⟨c, hc, hid⟩ := List.mem_filterMap.1 hreference
    obtain ⟨id, -, rfl⟩ := Option.map_eq_some_iff.1 hid
    rw [dangling] at hf
    split at hf
    · cases hf
    · cases List.mem_singleton.1 hf
      exact Fault.placed_of_spans rfl (hnode.feed hc).span

/-- Faults of a body are placed when its elements are. -/
theorem placed_of_mem_bodyFaults {keys : List String} (hnodes : ∀ node ∈ nodes, node.Placed text)
    (hf : f ∈ bodyFaults nodes keys) : f.Placed text := by
  rcases List.mem_append.1 hf with hf | hf
  · obtain ⟨fs, hfs, hf⟩ := List.mem_flatten.1 hf
    obtain ⟨i, hi, rfl⟩ := List.mem_mapIdx.1 hfs
    refine placed_of_mem_elementFaults ?_ (hnodes _ (List.getElem_mem hi)) hf
    intro x hx
    exact hnodes x (List.mem_of_mem_take hx)
  · obtain ⟨reference, hreference, hf⟩ := List.mem_flatMap.1 hf
    obtain ⟨node, hnode, hreference⟩ := List.mem_flatMap.1 hreference
    exact placed_of_mem_dangling (hnodes node hnode) hreference hf

/-! ## Readings -/

/-- All labels of the diagnostics are on boundaries. -/
def LabelsPlaced (text : List Char) (diagnostics : List Diagnostic) : Prop :=
  ∀ d ∈ diagnostics, ∀ l ∈ d.labels, l.span.OnBoundaries text

theorem labelsPlaced_map (faults : List Fault) (h : ∀ f ∈ faults, f.Placed text) :
    LabelsPlaced text (faults.map (Fault.diagnostic text)) := by
  intro d hd
  obtain ⟨f, hf, rfl⟩ := List.mem_map.1 hd
  exact (h f hf).labels

theorem labelsPlaced_singleton (h : f.Placed text) : LabelsPlaced text [f.diagnostic text] := by
  refine labelsPlaced_map [f] ?_
  intro g hg
  rwa [List.mem_singleton.1 hg]

/-- What is said about a program, whether it can be read or not. -/
def Reading.said : Except ReadError Reading → List Diagnostic
  | .ok reading => reading.warnings
  | .error e => e.diagnostics

theorem Reading.labelsPlaced_ofDocument {root : Node} (h : root.Placed text) :
    LabelsPlaced text (said (ofDocument text root)) := by
  cases hbody : ladderBody? root with
  | none =>
    rw [ofDocument, hbody]
    exact labelsPlaced_singleton (Fault.placed_of_spans rfl h.startTag)
  | some body =>
    obtain ⟨reading, hreading, -, hwarnings⟩ := ofDocument_eq text hbody
    rw [hreading, said, hwarnings]
    refine labelsPlaced_map _ fun f hf => placed_of_mem_bodyFaults ?_ hf
    intro node hnode
    have hplaced := h.descendant body (List.mem_of_find?_eq_some hbody)
    exact hplaced.child (List.mem_filter.1 hnode).1

theorem Reading.labelsPlaced_ofSource (source : String) :
    LabelsPlaced source.toList (said (ofSource source)) := by
  rw [ofSource]
  split
  · -- nothing is said about a blank source
    intro d hd
    cases hd
  · split
    · exact labelsPlaced_singleton fun s hs => absurd hs List.not_mem_nil
    · next root hroot => exact labelsPlaced_ofDocument (Markup.Document.placed_of_read hroot)

/-- The span lies within the source, and both its ends stand between characters. -/
structure Span.PointsInto (source : String) (s : Span) : Prop where
  ordered : s.start ≤ s.stop
  inside : s.stop ≤ source.utf8ByteSize
  start : String.Pos.Raw.IsValid source ⟨s.start⟩
  stop : String.Pos.Raw.IsValid source ⟨s.stop⟩

theorem Span.OnBoundaries.pointsInto {source : String} {s : Span}
    (h : s.OnBoundaries source.toList) : s.PointsInto source where
  ordered := s.start_le_stop
  inside := by
    rw [← byteLength_toList]
    exact h.2.le
  start := isBoundary_iff_isValid.1 h.1
  stop := isBoundary_iff_isValid.1 h.2

/-- The mark shows the label, at its own place in the source. -/
structure SourceMark.Shows (source : String) (l : Label) (m : SourceMark) : Prop where
  text : m.text = l.message
  primary : m.primary = l.primary
  offset : m.offset = l.span.start
  stop : m.offset + m.length = l.span.stop
  inside : m.offset + m.length ≤ source.utf8ByteSize

theorem Label.shows_mark {source : String} {l : Label} (h : l.span.PointsInto source) :
    SourceMark.Shows source l l.mark := by
  have hstop : l.span.start + (l.span.stop - l.span.start) = l.span.stop :=
    Nat.add_sub_cancel' l.span.start_le_stop
  refine ⟨rfl, rfl, rfl, hstop, ?_⟩
  show l.span.start + (l.span.stop - l.span.start) ≤ source.utf8ByteSize
  rw [hstop]
  exact h.inside

/-- **Every diagnostic points into the source.**  Whatever the source is, the labels of its
warnings and of its errors lie within it and begin and end between characters; and the report
on a source that cannot be read has an entry for each diagnostic, with a mark for each label,
in order and in the label's place. -/
theorem Reading.labels_point_into_source (source : String) :
    (∀ reading, ofSource source = .ok reading →
      ∀ d ∈ reading.warnings, ∀ l ∈ d.labels, l.span.PointsInto source) ∧
    (∀ e, ofSource source = .error e →
      ∀ d ∈ e.diagnostics, ∀ l ∈ d.labels, l.span.PointsInto source) ∧
    ∀ failure, strict source = .error failure →
      ∃ e, failure = .reading e source ∧ ofSource source = .error e ∧
        List.Forall₂ (fun d report => report.source = some source ∧
            List.Forall₂ (SourceMark.Shows source) d.labels report.marks)
          e.diagnostics failure.reports := by
  have hsaid : ∀ d ∈ said (ofSource source), ∀ l ∈ d.labels, l.span.PointsInto source :=
    fun d hd l hl => (labelsPlaced_ofSource source d hd l hl).pointsInto
  refine ⟨?_, ?_, ?_⟩
  · intro reading hreading
    rw [hreading] at hsaid
    exact hsaid
  · intro e he
    rw [he] at hsaid
    exact hsaid
  · intro failure hfailure
    rw [strict] at hfailure
    split at hfailure
    · next e he =>
      cases hfailure
      rw [he] at hsaid
      refine ⟨e, rfl, he, ?_⟩
      rw [Failure.reports, List.forall₂_map_right_iff, List.forall₂_same]
      intro d hd
      refine ⟨rfl, ?_⟩
      show List.Forall₂ (SourceMark.Shows source) d.labels (d.labels.map Label.mark)
      rw [List.forall₂_map_right_iff, List.forall₂_same]
      intro l hl
      exact Label.shows_mark (hsaid d hd l hl)
    · cases hfailure

/-- A start tag that ends at its text, and a source that breaks off after a letter of two
bytes. -/
theorem Reading.labels_point_into_source_accent :
    (∃ reading, ofSource "<LD><é>a</é></LD>" = .ok reading ∧
      reading.warnings.map (·.labels.map (·.span)) = [[Span.between 4 8]] ∧
      ∀ d ∈ reading.warnings, ∀ l ∈ d.labels, l.span.PointsInto "<LD><é>a</é></LD>") ∧
    ∃ failure e, strict "é" = .error failure ∧ ofSource "é" = .error e ∧
      failure.reports.map (·.marks) = [[⟨0, 2, "reading stopped here", true⟩]] ∧
      (∀ d ∈ e.diagnostics, ∀ l ∈ d.labels, l.span.PointsInto "é") ∧
      List.Forall₂ (fun d report => report.source = some "é" ∧
          List.Forall₂ (SourceMark.Shows "é") d.labels report.marks)
        e.diagnostics failure.reports := by
  have hspans : (ofSource "<LD><é>a</é></LD>").toOption.map
      (fun reading => reading.warnings.map (·.labels.map (·.span))) =
        some [[Span.between 4 8]] := by
    decide +kernel
  have hmarks : ((strict "é").map fun _ => ()).mapError (fun failure =>
      failure.reports.map (·.marks)) = .error [[⟨0, 2, "reading stopped here", true⟩]] := by
    decide +kernel
  constructor
  · cases hread : ofSource "<LD><é>a</é></LD>" with
    | error e =>
      rw [hread] at hspans
      cases hspans
    | ok reading =>
      rw [hread] at hspans
      exact ⟨reading, rfl, Option.some.inj hspans,
        (labels_point_into_source "<LD><é>a</é></LD>").1 reading hread⟩
  · cases hread : strict "é" with
    | ok reading =>
      rw [hread] at hmarks
      cases hmarks
    | error failure =>
      rw [hread] at hmarks
      obtain ⟨-, hlabels, hreports⟩ := labels_point_into_source "é"
      obtain ⟨e, -, he, hshown⟩ := hreports failure hread
      exact ⟨failure, e, rfl, he, Except.error.inj hmarks, hlabels e he, hshown⟩

end LadderLogic
