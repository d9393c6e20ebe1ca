/-
The drawing conducts where the program does.

On a page laid out in exact arithmetic, wires and symbols of a branch meet end to end from
the left rail to the place where branches end (`BranchLine.Continuous`), junctions join
all branches of a rung and touch no symbol, and a wire leads on through the coil to the
right rail (`RungLayout.Connected`).  The wires are computed by a running position; what
that loop gives is said once, wire by wire, and everything else is arithmetic on the places
along a rung.  The tight case is a symbol as wide as its room on the longest branch.
-/

import LadderLogic.Proofs.PageGeometry

namespace LadderLogic

/-! ## Continuity -/

/-- Wires and symbols lead from `left` to `merge` without a gap and without going back. -/
structure BranchLine.Continuous (left merge half : Rat) (l : BranchLine Rat) : Prop where
  count : l.wires.length = l.glyphs.length + 1
  /-- Everything is on the level of the line. -/
  level : (∀ w ∈ l.wires, w.kind = .wire ∧ w.start.y = l.y ∧ w.stop.y = l.y) ∧
    ∀ g ∈ l.glyphs, g.position.y = l.y
  first : ∀ w, l.wires[0]? = some w → w.start.x = left
  /-- A wire ends where the next symbol begins, -/
  enters : ∀ (i : Nat) (g : Glyph Rat) (w : Segment Rat),
    l.glyphs[i]? = some g → l.wires[i]? = some w → w.stop.x = g.position.x - half
  /-- and the wire behind a symbol starts where the symbol ends. -/
  leaves : ∀ (i : Nat) (g : Glyph Rat) (w : Segment Rat),
    l.glyphs[i]? = some g → l.wires[i + 1]? = some w → w.start.x = g.position.x + half
  last : ∀ w, l.wires[l.glyphs.length]? = some w → w.stop.x = merge
  forward : ∀ w ∈ l.wires, w.start.x ≤ w.stop.x

/-- The junctions of a rung: the only upright lines, from the first branch to the last. -/
structure RungLayout.Joined (split merge : Rat) (r : RungLayout Rat) (first last : BranchLine Rat) :
    Prop where
  split : r.connectors.filter (·.kind = .split) = [.upright split first.y last.y .split]
  merge : r.connectors.filter (·.kind = .merge) = [.upright merge first.y last.y .merge]
  /-- They meet every branch and the coil. -/
  lines : ∀ l ∈ r.lines, first.y ≤ l.y ∧ l.y ≤ last.y
  coil : first.y ≤ r.coil.position.y ∧ r.coil.position.y ≤ last.y

/-- Current runs from the rail at `left` through a branch and the coil to the rail at
`right`, and nowhere else. -/
structure RungLayout.Connected (s : LayoutSettings Rat) (left right : Rat) (r : RungLayout Rat) :
    Prop where
  lines : ∀ l ∈ r.lines,
    l.Continuous left (right - s.elementWidth) (s.symbolWidth / 2)
  /-- A single branch is on the level of the coil. -/
  single : ∀ l, r.lines = [l] → l.y = r.coil.position.y
  /-- Several branches are joined on both sides, -/
  joined : ∀ first last, 2 ≤ r.lines.length → r.lines.head? = some first →
    r.lines.getLast? = some last →
    r.Joined (left + s.elementWidth / 2) (right - s.elementWidth) first last
  /-- and otherwise there is nothing to join. -/
  apart : r.lines.length < 2 → ∀ c ∈ r.connectors, c.kind = .wire
  /-- Branches part on their first wire, before any symbol, -/
  splitOnWire : ∀ l ∈ r.lines,
    (∀ w, l.wires[0]? = some w →
      w.start.x ≤ left + s.elementWidth / 2 ∧ left + s.elementWidth / 2 ≤ w.stop.x) ∧
    ∀ g ∈ l.glyphs, left + s.elementWidth / 2 ≤ g.position.x - s.symbolWidth / 2
  /-- and come together behind all symbols. -/
  mergeBehind : ∀ l ∈ r.lines, ∀ g ∈ l.glyphs,
    g.position.x + s.symbolWidth / 2 ≤ right - s.elementWidth
  /-- A wire leads to the coil if there are branches, and one from the coil to the rail. -/
  wires : r.connectors.filter (·.kind = .wire) =
    (if r.lines = [] then [] else
      [.wire (right - s.elementWidth) (r.coil.position.x - s.symbolWidth / 2) r.coil.position.y]) ++
    [.wire (r.coil.position.x + s.symbolWidth / 2) right r.coil.position.y]
  coilBetween : right - s.elementWidth ≤ r.coil.position.x - s.symbolWidth / 2 ∧
    r.coil.position.x + s.symbolWidth / 2 ≤ right

namespace Layout
namespace Frame

/-! ## The wires of a branch -/

section Wires

variable {α : Type} [Scalar α] (f : Frame α) (y : α)

theorem length_wires (x : α) (gs : List (Glyph α)) :
    (f.wires y x gs).length = gs.length + 1 := by
  induction gs generalizing x with
  | nil => rfl
  | cons g gs ih => rw [wires, List.length_cons, ih, List.length_cons]

theorem wires_first {x : α} {gs : List (Glyph α)} {w : Segment α}
    (hw : (f.wires y x gs)[0]? = some w) : w.start.x = x := by
  cases gs with
  | nil =>
      cases hw
      rfl
  | cons glyph gs =>
      cases hw
      rfl

theorem wires_enter {x : α} {gs : List (Glyph α)} {i : Nat} {g : Glyph α} {w : Segment α}
    (hg : gs[i]? = some g) (hw : (f.wires y x gs)[i]? = some w) :
    w.stop.x = g.position.x - f.halfSymbol := by
  induction gs generalizing x i with
  | nil => cases hg
  | cons glyph gs ih =>
      rw [wires] at hw
      cases i with
      | zero =>
          cases hg
          cases hw
          rfl
      | succ i => exact ih hg hw

theorem wires_leave {x : α} {gs : List (Glyph α)} {i : Nat} {g : Glyph α} {w : Segment α}
    (hg : gs[i]? = some g) (hw : (f.wires y x gs)[i + 1]? = some w) :
    w.start.x = g.position.x + f.halfSymbol := by
  induction gs generalizing x i with
  | nil => cases hg
  | cons glyph gs ih =>
      rw [wires, List.getElem?_cons_succ] at hw
      cases i with
      | zero =>
          -- behind the first symbol the loop starts again at its right edge
          cases hg
          exact f.wires_first y hw
      | succ i => exact ih hg hw

theorem wires_last {x : α} {gs : List (Glyph α)} {w : Segment α}
    (hw : (f.wires y x gs)[gs.length]? = some w) : w.stop.x = f.mergeX := by
  induction gs generalizing x with
  | nil =>
      cases hw
      rfl
  | cons glyph gs ih =>
      rw [wires, List.length_cons, List.getElem?_cons_succ] at hw
      exact ih hw

theorem wires_level {x : α} {gs : List (Glyph α)} :
    ∀ w ∈ f.wires y x gs, w.kind = .wire ∧ w.start.y = y ∧ w.stop.y = y := by
  induction gs generalizing x with
  | nil =>
      intro w hw
      cases List.mem_singleton.1 hw
      exact ⟨rfl, rfl, rfl⟩
  | cons glyph gs ih =>
      rw [wires]
      exact List.forall_mem_cons.2 ⟨⟨rfl, rfl, rfl⟩, ih⟩

/-- The symbols of a branch, by their place on it. -/
theorem glyphs_getElem? {branch : Branch} {i : Nat} {g : Glyph α}
    (hg : (f.glyphs branch y)[i]? = some g) :
    i < branch.length ∧ g.position.x = f.contactX i ∧ g.position.y = y := by
  rw [glyphs, List.getElem?_mapIdx, Option.map_eq_some_iff] at hg
  obtain ⟨contact, hcontact, rfl⟩ := hg
  exact ⟨(List.getElem?_eq_some_iff.1 hcontact).1, rfl, rfl⟩

theorem length_glyphs (branch : Branch) : (f.glyphs branch y).length = branch.length := by
  rw [glyphs, List.length_mapIdx]

end Wires

/-! ## A branch between the rails -/

section Branches

variable {f : Frame Rat} {branch : Branch} {y : Rat} {i : Nat}

theorem left_le_contactX (hs : f.settings.Valid) (i : Nat) :
    f.left + f.settings.elementWidth ≤ f.contactX i := by
  have hwidth := hs.elementWidth
  have hslots : 0 ≤ f.settings.elementWidth * i := by positivity
  rw [contactX_eq]
  linarith

theorem contactX_le (hs : f.settings.Valid) (hroom : f.Room branch.length)
    (hi : i < branch.length) : f.contactX i + f.settings.elementWidth * (3 / 2) ≤ f.right := by
  have hslots : ((i + 1 : Nat) : Rat) ≤ branch.length := by exact_mod_cast hi
  have hgrow : f.settings.elementWidth * ((i + 1 : Nat) : Rat) ≤
      f.settings.elementWidth * branch.length :=
    mul_le_mul_of_nonneg_left hslots (le_of_lt hs.elementWidth)
  rw [Room] at hroom
  push_cast at hgrow
  rw [contactX_eq]
  linarith

/-- Where the branches part there is no symbol yet. -/
theorem splitX_le_contactX (hs : f.settings.Valid) (i : Nat) :
    f.splitX ≤ f.contactX i - f.halfSymbol := by
  have hfits := hs.symbolFits
  have hplace := left_le_contactX hs i
  rw [splitX_eq, halfSymbol_eq]
  linarith

/-- Where the branches end there is no symbol any more. -/
theorem contactX_le_mergeX (hs : f.settings.Valid) (hroom : f.Room branch.length)
    (hi : i < branch.length) : f.contactX i + f.halfSymbol ≤ f.mergeX := by
  have hfits := hs.symbolFits
  have hplace := contactX_le hs hroom hi
  rw [mergeX_eq, halfSymbol_eq]
  linarith

/-- Branches part before they end, even if there is nothing on them. -/
theorem splitX_le_mergeX (hs : f.settings.Valid) {slots : Nat} (hroom : f.Room slots) :
    f.splitX ≤ f.mergeX := by
  have hwidth := hs.elementWidth
  have hslots : 0 ≤ f.settings.elementWidth * slots := by positivity
  rw [Room] at hroom
  rw [splitX_eq, mergeX_eq]
  linarith

theorem left_le_splitX (hs : f.settings.Valid) : f.left ≤ f.splitX := by
  have hwidth := hs.elementWidth
  rw [splitX_eq]
  linarith

/-- Symbols side by side do not overlap. -/
theorem contactX_succ (hs : f.settings.Valid) (i : Nat) :
    f.contactX i + f.halfSymbol ≤ f.contactX (i + 1) - f.halfSymbol := by
  have hfits := hs.symbolFits
  rw [contactX_eq, contactX_eq, halfSymbol_eq]
  push_cast
  linarith

/-- The first wire of a branch reaches as far as the split. -/
theorem splitX_le_stop (hs : f.settings.Valid) (hroom : f.Room branch.length) {w : Segment Rat}
    (hw : (f.wires y f.left (f.glyphs branch y))[0]? = some w) : f.splitX ≤ w.stop.x := by
  cases hg : (f.glyphs branch y)[0]? with
  | some g =>
      rw [f.wires_enter y hg hw, (f.glyphs_getElem? y hg).2.1]
      exact splitX_le_contactX hs 0
  | none =>
      -- without a symbol the first wire is also the last one
      have hempty : (f.glyphs branch y).length = 0 := by
        rw [List.getElem?_eq_none_iff] at hg
        omega
      rw [← hempty] at hw
      rw [f.wires_last y hw]
      exact splitX_le_mergeX hs hroom

/-- No wire of a branch goes back. -/
theorem wires_forward (hs : f.settings.Valid) (hroom : f.Room branch.length) :
    ∀ w ∈ f.wires y f.left (f.glyphs branch y), w.start.x ≤ w.stop.x := by
  intro w hmem
  obtain ⟨i, hw⟩ := List.mem_iff_getElem?.1 hmem
  have hi : i ≤ branch.length := by
    have hlt := (List.getElem?_eq_some_iff.1 hw).1
    rw [length_wires, length_glyphs] at hlt
    omega
  cases i with
  | zero =>
      rw [f.wires_first y hw]
      exact (left_le_splitX hs).trans (splitX_le_stop hs hroom hw)
  | succ j =>
      have hj : j < (f.glyphs branch y).length := by
        rw [length_glyphs]
        omega
      have hg := List.getElem?_eq_getElem hj
      rw [f.wires_leave y hg hw, (f.glyphs_getElem? y hg).2.1]
      -- the wire behind a symbol ends at the next one, or where the branches end
      by_cases hend : j + 1 = (f.glyphs branch y).length
      · rw [hend] at hw
        rw [f.wires_last y hw]
        exact contactX_le_mergeX hs hroom hi
      · have hg' := List.getElem?_eq_getElem (show j + 1 < (f.glyphs branch y).length by omega)
        rw [f.wires_enter y hg' hw, (f.glyphs_getElem? y hg').2.1]
        exact contactX_succ hs j

/-- A branch with room between the rails is continuous. -/
theorem continuous_branchLine (hs : f.settings.Valid) (hroom : f.Room branch.length)
    (parallel : Bool) :
    (f.branchLine parallel branch y).Continuous f.left f.mergeX f.halfSymbol where
  count := f.length_wires y f.left (f.glyphs branch y)
  level := by
    refine ⟨f.wires_level y, ?_⟩
    intro g hg
    obtain ⟨i, hi⟩ := List.mem_iff_getElem?.1 hg
    exact (f.glyphs_getElem? y hi).2.2
  first w hw := f.wires_first y hw
  enters i g w hg hw := f.wires_enter y hg hw
  leaves i g w hg hw := f.wires_leave y hg hw
  last w hw := f.wires_last y hw
  forward := wires_forward hs hroom

end Branches

/-! ## Connectors -/

section Connectors

variable {α : Type} [Scalar α] (f : Frame α) (coil : Glyph α) (middle : α)

theorem connectors_of_parallel {lines : List (BranchLine α)} {first last : BranchLine α}
    (hlen : 2 ≤ lines.length) (hfirst : lines.head? = some first)
    (hlast : lines.getLast? = some last) :
    f.connectors lines coil middle =
      [.upright f.splitX first.y last.y .split, .upright f.mergeX first.y last.y .merge,
        .wire f.mergeX (coil.position.x - f.halfSymbol) middle,
        .wire (coil.position.x + f.halfSymbol) f.right middle] := by
  match lines with
  | [] | [_] => simp at hlen
  | one :: two :: rest =>
      cases hfirst
      rw [List.getLast?_cons_cons,
        List.getLast?_eq_some_getLast (List.cons_ne_nil two rest)] at hlast
      cases hlast
      rfl

theorem connectors_of_single (l : BranchLine α) :
    f.connectors [l] coil middle =
      [.wire f.mergeX (coil.position.x - f.halfSymbol) middle,
        .wire (coil.position.x + f.halfSymbol) f.right middle] := rfl

theorem connectors_of_none :
    f.connectors [] coil middle = [.wire (coil.position.x + f.halfSymbol) f.right middle] := rfl

end Connectors

/-! ## A rung between the rails -/

section Rungs

variable {f : Frame Rat} {rung : Rung} {top middle : Rat}

theorem branchY_le (hs : f.settings.Valid) {n i j : Nat} (hij : i ≤ j) (hj : j < n) :
    f.branchY middle n i ≤ f.branchY middle n j := by
  have hplaces : (i : Rat) ≤ j := by exact_mod_cast hij
  have hstep := mul_le_mul_of_nonneg_right hplaces (le_of_lt hs.branchSpacing)
  rw [branchY_eq f middle (by omega), branchY_eq f middle hj]
  linarith

/-- The middle lies between the first branch and the last. -/
theorem branchY_around (hs : f.settings.Valid) {n : Nat} (hn : 0 < n) :
    f.branchY middle n 0 ≤ middle ∧ middle ≤ f.branchY middle n (n - 1) := by
  have hspan : 0 ≤ ((n : Rat) - 1) / 2 * f.settings.branchSpacing := by
    have hone : (1 : Rat) ≤ n := by exact_mod_cast hn
    exact mul_nonneg (by linarith) (le_of_lt hs.branchSpacing)
  rw [branchY_eq f middle hn, branchY_eq f middle (by omega), Nat.cast_sub (by omega),
    Nat.cast_zero, Nat.cast_one]
  constructor
  · linarith
  · linarith

theorem branchY_single : f.branchY middle 1 0 = middle := by
  rw [branchY_eq f middle (by omega), Nat.cast_zero, Nat.cast_one]
  ring

/-- The lines of a rung, by their place in it. -/
theorem place_line {i : Nat} {l : BranchLine Rat} (hl : (f.place rung top).lines[i]? = some l) :
    ∃ branch, rung.branches[i]? = some branch ∧
      l = f.branchLine (1 < rung.branches.length) branch
        (f.branchY (f.place rung top).coil.position.y rung.branches.length i) := by
  have hlines : (f.place rung top).lines = rung.branches.mapIdx fun index branch =>
      f.branchLine (1 < rung.branches.length) branch
        (f.branchY (f.place rung top).coil.position.y rung.branches.length index) := rfl
  rw [hlines, List.getElem?_mapIdx, Option.map_eq_some_iff] at hl
  obtain ⟨branch, hbranch, rfl⟩ := hl
  exact ⟨branch, hbranch, rfl⟩

theorem length_place_lines (f : Frame Rat) (rung : Rung) (top : Rat) :
    (f.place rung top).lines.length = rung.branches.length :=
  List.length_mapIdx

theorem place_line_y {i : Nat} {l : BranchLine Rat} (hl : (f.place rung top).lines[i]? = some l) :
    i < rung.branches.length ∧
      l.y = f.branchY (f.place rung top).coil.position.y rung.branches.length i := by
  obtain ⟨branch, hbranch, rfl⟩ := place_line hl
  exact ⟨(List.getElem?_eq_some_iff.1 hbranch).1, rfl⟩

/-- Several branches of a rung are joined from the first to the last. -/
theorem joined_place (hs : f.settings.Valid) {first last : BranchLine Rat}
    (hlen : 2 ≤ (f.place rung top).lines.length)
    (hfirst : (f.place rung top).lines.head? = some first)
    (hlast : (f.place rung top).lines.getLast? = some last) :
    (f.place rung top).Joined f.splitX f.mergeX first last := by
  -- the connectors are those of parallel branches; the rest is about levels
  have hconnectors : (f.place rung top).connectors = _ :=
    f.connectors_of_parallel (f.place rung top).coil _ hlen hfirst hlast
  rw [List.head?_eq_getElem?] at hfirst
  rw [List.getLast?_eq_getElem?, length_place_lines] at hlast
  rw [length_place_lines] at hlen
  have hy₀ := (place_line_y hfirst).2
  have hy₁ := (place_line_y hlast).2
  refine ⟨by rw [hconnectors]; rfl, by rw [hconnectors]; rfl, ?_, ?_⟩
  · intro l hl
    obtain ⟨i, hi⟩ := List.mem_iff_getElem?.1 hl
    obtain ⟨hlt, hy⟩ := place_line_y hi
    rw [hy, hy₀, hy₁]
    exact ⟨branchY_le hs (by omega) hlt, branchY_le hs (by omega) (by omega)⟩
  · rw [hy₀, hy₁]
    exact branchY_around hs (by omega)

theorem coilX_between (hs : f.settings.Valid) :
    f.mergeX ≤ f.coilX - f.halfSymbol ∧ f.coilX + f.halfSymbol ≤ f.right := by
  have hfits := hs.symbolFits
  rw [mergeX_eq, coilX_eq, halfSymbol_eq]
  constructor
  · linarith
  · linarith

/-- The wires among the connectors of a rung. -/
theorem connector_wires (lines : List (BranchLine Rat)) (coil : Glyph Rat) (middle : Rat) :
    (f.connectors lines coil middle).filter (·.kind = .wire) =
      (if lines = [] then [] else [.wire f.mergeX (coil.position.x - f.halfSymbol) middle]) ++
        [.wire (coil.position.x + f.halfSymbol) f.right middle] := by
  match lines with
  | [] => rw [connectors_of_none]; rfl
  | [l] => rw [connectors_of_single]; rfl
  | one :: two :: rest =>
      rw [f.connectors_of_parallel coil middle (by simp) rfl
        (List.getLast?_eq_some_getLast (List.cons_ne_nil one (two :: rest)))]
      rfl

theorem kind_of_connector {lines : List (BranchLine Rat)} {coil : Glyph Rat} {c : Segment Rat}
    (hlen : lines.length < 2) (hc : c ∈ f.connectors lines coil middle) : c.kind = .wire := by
  match lines with
  | [] =>
      rw [connectors_of_none] at hc
      cases List.mem_singleton.1 hc
      rfl
  | [l] =>
      rw [connectors_of_single] at hc
      rcases List.mem_pair.1 hc with rfl | rfl
      · rfl
      · rfl
  | one :: two :: rest =>
      rw [List.length_cons, List.length_cons] at hlen
      omega

theorem exists_branch_of_mem {l : BranchLine Rat} (hl : l ∈ (f.place rung top).lines) :
    ∃ branch ∈ rung.branches, ∃ y, l = f.branchLine (1 < rung.branches.length) branch y := by
  obtain ⟨i, hi⟩ := List.mem_iff_getElem?.1 hl
  obtain ⟨branch, hbranch, hline⟩ := place_line hi
  exact ⟨branch, List.mem_of_getElem? hbranch, _, hline⟩

/-- A rung with room for its branches is connected. -/
theorem connected_place (hs : f.settings.Valid)
    (hroom : ∀ branch ∈ rung.branches, f.Room branch.length) :
    (f.place rung top).Connected f.settings f.left f.right where
  lines l hl := by
    obtain ⟨branch, hbranch, y, rfl⟩ := exists_branch_of_mem hl
    exact continuous_branchLine hs (hroom branch hbranch) _
  single l hl := by
    have hone : rung.branches.length = 1 := by
      rw [← length_place_lines f rung top, hl, List.length_singleton]
    have hfirst : (f.place rung top).lines[0]? = some l := by rw [hl, List.getElem?_cons_zero]
    rw [(place_line_y hfirst).2, hone]
    exact branchY_single
  joined first last hlen hfirst hlast := joined_place hs hlen hfirst hlast
  apart hlen c hc := kind_of_connector hlen hc
  splitOnWire l hl := by
    obtain ⟨branch, hbranch, y, rfl⟩ := exists_branch_of_mem hl
    refine ⟨?_, ?_⟩
    · intro w hw
      rw [f.wires_first y hw]
      exact ⟨left_le_splitX hs, splitX_le_stop hs (hroom branch hbranch) hw⟩
    · intro g hg
      obtain ⟨i, hi⟩ := List.mem_iff_getElem?.1 hg
      rw [(f.glyphs_getElem? y hi).2.1]
      exact splitX_le_contactX hs i
  mergeBehind l hl g hg := by
    obtain ⟨branch, hbranch, y, rfl⟩ := exists_branch_of_mem hl
    obtain ⟨i, hi⟩ := List.mem_iff_getElem?.1 hg
    obtain ⟨hlt, hx, -⟩ := f.glyphs_getElem? y hi
    rw [hx]
    exact contactX_le_mergeX hs (hroom branch hbranch) hlt
  wires := connector_wires _ _ _
  coilBetween := coilX_between hs

/-- Nothing is left out: a line for each branch, a symbol for each contact. -/
theorem place_complete :
    List.Forall₂ (fun branch l => l.glyphs.length = branch.length) rung.branches
      (f.place rung top).lines := by
  rw [List.forall₂_iff_get]
  refine ⟨(length_place_lines f rung top).symm, ?_⟩
  intro i hi hl
  obtain ⟨branch, hbranch, hline⟩ := place_line (List.getElem?_eq_getElem hl)
  rw [List.getElem?_eq_getElem hi] at hbranch
  cases hbranch
  rw [List.get_eq_getElem, hline]
  exact f.length_glyphs _ _

end Rungs

end Frame
end Layout

/-- **Electrical continuity.**  On a page laid out with checked sizes, current runs from the
left rail along every branch, through its symbols and through the coil to the right rail,
and branches meet at the junctions only. -/
theorem layout_connected (s : LayoutSettings Rat) (rungs : List Rung) (h : s.check = .ok ()) :
    List.Forall₂ (fun rung placed =>
        List.Forall₂ (fun branch l => l.glyphs.length = branch.length) rung.branches placed.lines ∧
        placed.Connected s (Diagram.ofRungs s rungs).left (Diagram.ofRungs s rungs).right)
      rungs (Diagram.ofRungs s rungs).rungs := by
  have hs := LayoutSettings.valid_of_check h
  have hroom : ∀ rung ∈ rungs, ∀ branch ∈ rung.branches,
      (Layout.pageFrame s rungs).Room branch.length := by
    intro rung hrung branch hbranch
    exact Layout.room_of_le hs (Layout.length_le_longestBranch hrung hbranch)
  have hplaced := (Layout.pageFrame s rungs).placeAll_forall₂ s.padding rungs
  rw [Layout.ofRungs_rungs]
  -- rung by rung: each is placed somewhere, with room for all its branches
  refine ((List.forall₂_and_left _ _).2 ⟨hroom, hplaced⟩).imp ?_
  rintro rung placed ⟨hfits, y, rfl⟩
  exact ⟨Layout.Frame.place_complete, Layout.Frame.connected_place hs hfits⟩

/-- Symbols as wide as their room. -/
def tightSizes : LayoutSettings Rat := ⟨1, 1, 0, 0, 0, 1⟩

/-- Two branches in parallel, and a coil without any. -/
def motorAndIdle : List Rung := [
  ⟨"Motor", false, [[⟨"Start", false, .contact⟩, ⟨"Stop", true, .contact⟩],
    [⟨"Jog", false, .contact⟩]]⟩,
  ⟨"Idle", true, []⟩]

theorem layout_connected_tight :
    tightSizes.check = .ok () ∧ (Diagram.ofRungs tightSizes motorAndIdle).right = 7 / 2 ∧
    List.Forall₂ (fun rung placed =>
        List.Forall₂ (fun branch l => l.glyphs.length = branch.length) rung.branches placed.lines ∧
        placed.Connected tightSizes 0 (7 / 2))
      motorAndIdle (Diagram.ofRungs tightSizes motorAndIdle).rungs := by
  have hcheck : tightSizes.check = .ok () := by decide +kernel
  have hleft : (Diagram.ofRungs tightSizes motorAndIdle).left = 0 := rfl
  have hright : (Diagram.ofRungs tightSizes motorAndIdle).right = 7 / 2 := by decide +kernel
  have hconnected := layout_connected tightSizes motorAndIdle hcheck
  rw [hleft, hright] at hconnected
  exact ⟨hcheck, hright, hconnected⟩

end LadderLogic
