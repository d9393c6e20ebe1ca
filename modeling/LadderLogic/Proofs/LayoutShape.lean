/-
A layout loses, doubles and moves nothing.

Whatever numbers a page is laid out with, the drawing has the shape of the program: a rung
for each rung, a line for each branch, a symbol for each contact, each in its order
(`RungLayout.Depicts`).  None of this depends on a single coordinate, so it is proved for any
arithmetic at all: binary32 with its infinities and undefined values is one of them.

With the rungs that are rebuilt from a program, the symbols of a line come from the contacts
and coils on the chain of first inputs behind the line's own input
(`RungLayout.DrawnFrom`).  Nothing else ever gets a symbol.
-/

import LadderLogic.Proofs.Continuity
import LadderLogic.Proofs.PrimaryChain

namespace LadderLogic

variable {α : Type}

/-! ## Shapes -/

/-- The symbol stands for the contact. -/
structure Glyph.Depicts (contact : Contact) (g : Glyph α) : Prop where
  operand : g.operand = contact.operand
  negated : g.negated = contact.negated
  kind : g.kind = .coil ↔ contact.kind = .coil

/-- The line stands for the branch. -/
structure BranchLine.Depicts (branch : Branch) (l : BranchLine α) : Prop where
  glyphs : List.Forall₂ Glyph.Depicts branch l.glyphs
  wires : l.wires.length = l.glyphs.length + 1

/-- The number of connectors of a rung with so many branches. -/
def connectorCount : Nat → Nat
  | 0 => 1
  | 1 => 2
  | _ + 2 => 4

/-- The drawing stands for the rung. -/
structure RungLayout.Depicts (rung : Rung) (r : RungLayout α) : Prop where
  coilKind : r.coil.kind = .coil
  coilOperand : r.coil.operand = rung.operand
  coilNegated : r.coil.negated = rung.negated
  lines : List.Forall₂ BranchLine.Depicts rung.branches r.lines
  /-- Lines are joined to others when there are others. -/
  junctions : ∀ l ∈ r.lines,
    (l.connectsToSplit = true ↔ 2 ≤ rung.branches.length) ∧
      (l.connectsToMerge = true ↔ 2 ≤ rung.branches.length)
  connectors : r.connectors.length = connectorCount rung.branches.length
  splits : r.connectors.countP (·.kind = .split) = if 2 ≤ rung.branches.length then 1 else 0
  merges : r.connectors.countP (·.kind = .merge) = if 2 ≤ rung.branches.length then 1 else 0

/-- The symbol is drawn for the element, with the symbol of its kind. -/
structure Glyph.DrawnFrom (e : Element) (g : Glyph α) : Prop where
  operand : g.operand = e.operand
  negated : g.negated = e.negated
  kind : (e.kind = .contact ∧ g.kind = .contact) ∨ (e.kind = .coil ∧ g.kind = .coil)

/-- The drawing stands for the coil and what feeds it: a line for each input whose chain
meets a contact, and on it the contacts and coils of the chain, the last one first. -/
structure RungLayout.DrawnFrom (m : ElementMap) (coil : Element) (r : RungLayout α) : Prop where
  symbol : r.coil.DrawnFrom coil
  lines : List.Forall₂
    (fun input l => ∃ count, List.Forall₂ (fun e g => e ∈ m.elements ∧ Glyph.DrawnFrom e g)
      ((m.chainElements input count).filter
        fun e => e.kind = .contact ∨ e.kind = .coil).reverse l.glyphs)
    (coil.inputs.filter fun input => (m.trace input).branch ≠ []) r.lines

theorem forall₂_mapIdx {β γ : Type} {R : β → γ → Prop} {f : Nat → β → γ} (l : List β)
    (h : ∀ i b, R b (f i b)) : List.Forall₂ R l (l.mapIdx f) := by
  induction l generalizing f with
  | nil => exact .nil
  | cons b l ih =>
    rw [List.mapIdx_cons]
    exact .cons (h 0 b) (ih fun i b => h (i + 1) b)

theorem GlyphKind.ofElement_eq_coil_iff (kind : ElementKind) :
    GlyphKind.ofElement kind = .coil ↔ kind = .coil := by
  cases kind <;> decide

/-! ## The shape of a layout -/

namespace Layout.Frame

variable [Scalar α] (f : Frame α)

theorem glyphs_depict (branch : Branch) (y : α) :
    List.Forall₂ Glyph.Depicts branch (f.glyphs branch y) := by
  refine forall₂_mapIdx branch ?_
  intro i contact
  exact ⟨rfl, rfl, GlyphKind.ofElement_eq_coil_iff contact.kind⟩

theorem branchLine_depicts (parallel : Bool) (branch : Branch) (y : α) :
    (f.branchLine parallel branch y).Depicts branch where
  glyphs := f.glyphs_depict branch y
  wires := f.length_wires y f.left (f.glyphs branch y)

theorem length_lines (rung : Rung) (top : α) :
    (f.place rung top).lines.length = rung.branches.length :=
  List.length_mapIdx

/-- The connectors of a rung, by what they stand for. -/
theorem map_kind_connectors (lines : List (BranchLine α)) (coil : Glyph α) (middle : α) :
    (f.connectors lines coil middle).map (·.kind) =
      match lines.length with
      | 0 => [.wire]
      | 1 => [.wire, .wire]
      | _ + 2 => [.split, .merge, .wire, .wire] := by
  match lines with
  | [] => rfl
  | [_] => rfl
  | _ :: _ :: _ => rfl

theorem place_depicts (rung : Rung) (top : α) : (f.place rung top).Depicts rung := by
  have hkinds := f.map_kind_connectors (f.place rung top).lines (f.place rung top).coil
    (f.place rung top).span.middle
  rw [length_lines] at hkinds
  have hconnectors : (f.place rung top).connectors = f.connectors (f.place rung top).lines
    (f.place rung top).coil (f.place rung top).span.middle := rfl
  rw [← hconnectors] at hkinds
  -- how many connectors there are of a kind can be counted on the kinds alone
  have hcount : ∀ kind, (f.place rung top).connectors.countP (·.kind = kind) =
      ((f.place rung top).connectors.map (·.kind)).count kind := by
    intro kind
    rw [List.count, List.countP_map]
    rfl
  exact {
    coilKind := rfl
    coilOperand := rfl
    coilNegated := rfl
    lines := forall₂_mapIdx rung.branches fun i branch => f.branchLine_depicts _ branch _
    junctions := by
      intro l hl
      obtain ⟨i, hi, rfl⟩ := List.mem_mapIdx.1 hl
      constructor
      · exact decide_eq_true_iff
      · exact decide_eq_true_iff
    connectors := by
      rw [← List.length_map, hkinds]
      match rung.branches.length with
      | 0 => rfl
      | 1 => rfl
      | _ + 2 => rfl
    splits := by
      rw [hcount, hkinds]
      match rung.branches.length with
      | 0 => rfl
      | 1 => rfl
      | n + 2 => rw [if_pos (Nat.le_add_left 2 n)]; rfl
    merges := by
      rw [hcount, hkinds]
      match rung.branches.length with
      | 0 => rfl
      | 1 => rfl
      | n + 2 => rw [if_pos (Nat.le_add_left 2 n)]; rfl }

end Layout.Frame

/-- Every rung of a page has the shape of the rung it is laid out for. -/
theorem ofRungs_depicts [Scalar α] (s : LayoutSettings α) (rungs : List Rung) :
    List.Forall₂ RungLayout.Depicts rungs (Diagram.ofRungs s rungs).rungs := by
  let frame : Layout.Frame α :=
    ⟨s, s.padding, Layout.pageWidth s rungs - s.padding⟩
  refine (frame.placeAll_forall₂ s.padding rungs).imp ?_
  rintro rung _ ⟨top, rfl⟩
  exact frame.place_depicts rung top

/-! ## Where symbols come from -/

namespace ElementMap

variable {m : ElementMap}

theorem mem_elements_of_chainElements {seed : String} {count : Nat} {e : Element}
    (h : e ∈ m.chainElements seed count) : e ∈ m.elements := by
  obtain ⟨k, -, hk⟩ := List.mem_filterMap.1 h
  obtain ⟨id, -, hfound⟩ := Option.bind_eq_some_iff.1 hk
  exact mem_of_find? hfound

/-- A branch is made of the contacts and coils on the chain of first inputs. -/
theorem branch_eq_chain (m : ElementMap) (seed : String) :
    ∃ count, (m.trace seed).branch =
      ((m.chainElements seed count).filter
        fun e => e.kind = .contact ∨ e.kind = .coil).reverse.map Element.contact := by
  obtain ⟨es, x, hwalk, hbranch⟩ := m.exists_walk [] seed
  have hchain := (hwalk.tracesChain hbranch).branch
  rw [← List.map_reverse] at hchain
  exact ⟨_, hchain⟩

theorem branches_rungOf (m : ElementMap) (coil : Element) :
    (m.rungOf coil).branches =
      (coil.inputs.filter fun input => (m.trace input).branch ≠ []).map
        fun input => (m.trace input).branch := by
  have hbranches : (m.rungOf coil).branches =
      (coil.inputs.map fun input => (m.trace input).branch).filter (!·.isEmpty) := rfl
  rw [hbranches, List.filter_map]
  congr 1
  apply List.filter_congr
  intro input _
  rw [Function.comp_apply]
  cases (m.trace input).branch with
  | nil => rfl
  | cons c rest => rfl

end ElementMap

/-- Symbols that stand for the contacts of elements are drawn from the elements. -/
theorem drawnFrom_of_depicts {e : Element} {g : Glyph α}
    (hdrawn : e.kind = .contact ∨ e.kind = .coil) (h : Glyph.Depicts e.contact g) :
    g.DrawnFrom e := by
  have hkind : g.kind = .coil ↔ e.kind = .coil := h.kind
  refine ⟨h.operand, h.negated, ?_⟩
  rcases hdrawn with hcontact | hcoil
  · refine Or.inl ⟨hcontact, ?_⟩
    -- there are two symbols, and it is not that of a coil
    cases hg : g.kind with
    | contact => rfl
    | coil => cases hcontact.symm.trans (hkind.1 hg)
  · exact Or.inr ⟨hcoil, hkind.2 hcoil⟩

theorem drawnFrom_rungOf {m : ElementMap} {coil : Element} {r : RungLayout α}
    (hcoil : coil.kind = .coil) (h : r.Depicts (m.rungOf coil)) : r.DrawnFrom m coil := by
  refine ⟨⟨h.coilOperand, h.coilNegated, Or.inr ⟨hcoil, h.coilKind⟩⟩, ?_⟩
  have hlines := h.lines
  rw [ElementMap.branches_rungOf, List.forall₂_map_left_iff] at hlines
  refine hlines.imp ?_
  intro input l hline
  obtain ⟨count, hbranch⟩ := m.branch_eq_chain input
  have hglyphs := hline.glyphs
  rw [hbranch, List.forall₂_map_left_iff] at hglyphs
  -- on the branch there is nothing but contacts and coils of the map
  have hmem : ∀ e ∈ ((m.chainElements input count).filter
      fun e => e.kind = .contact ∨ e.kind = .coil).reverse,
      e ∈ m.elements ∧ (e.kind = .contact ∨ e.kind = .coil) := by
    intro e he
    obtain ⟨hchain, hdrawn⟩ := List.mem_filter.1 (List.mem_reverse.1 he)
    exact ⟨ElementMap.mem_elements_of_chainElements hchain, of_decide_eq_true hdrawn⟩
  refine ⟨count, ((List.forall₂_and_left _ _).2 ⟨hmem, hglyphs⟩).imp ?_⟩
  rintro e g ⟨⟨he, hdrawn⟩, hdepicts⟩
  exact ⟨he, drawnFrom_of_depicts hdrawn hdepicts⟩

/-- **Layout loses, duplicates and reorders nothing**, whatever the numbers are.  On the page
of a program, every symbol is that of the contact or coil it is drawn for, and no branch
holds anything else. -/
theorem layout_faithful [Scalar α] (s : LayoutSettings α) :
    (∀ rungs, List.Forall₂ RungLayout.Depicts rungs (Diagram.ofRungs s rungs).rungs) ∧
    ∀ m : ElementMap,
      List.Forall₂ (RungLayout.DrawnFrom m) (m.elements.filter (·.kind = .coil))
        (Diagram.ofRungs s m.rungs).rungs ∧
      ∀ rung ∈ m.rungs, ∀ branch ∈ rung.branches, ∀ contact ∈ branch,
        contact.kind = .contact ∨ contact.kind = .coil := by
  refine ⟨ofRungs_depicts s, fun m => ⟨?_, ?_⟩⟩
  · have hdepicts := ofRungs_depicts s m.rungs
    have hrungs : m.rungs = (m.elements.filter (·.kind = .coil)).map m.rungOf := rfl
    rw [hrungs, List.forall₂_map_left_iff] at hdepicts
    have hcoils : ∀ coil ∈ m.elements.filter (·.kind = .coil), coil.kind = .coil := by
      intro coil hcoil
      simpa using (List.mem_filter.1 hcoil).2
    refine ((List.forall₂_and_left _ _).2 ⟨hcoils, hdepicts⟩).imp ?_
    rintro coil r ⟨hcoil, hr⟩
    exact drawnFrom_rungOf hcoil hr
  · intro rung hrung branch hbranch contact hcontact
    obtain ⟨coil, -, rfl⟩ := List.mem_map.1 hrung
    rw [ElementMap.branches_rungOf] at hbranch
    obtain ⟨input, -, rfl⟩ := List.mem_map.1 hbranch
    obtain ⟨count, htrace⟩ := m.branch_eq_chain input
    rw [htrace] at hcontact
    obtain ⟨e, he, rfl⟩ := List.mem_map.1 hcontact
    exact of_decide_eq_true (List.mem_filter.1 (List.mem_reverse.1 he)).2

end LadderLogic
