/-
Appending rungs never moves what is already drawn.

Two pages are compared: that of some rungs, and that of the same rungs with more behind them.
The later rungs change one number only, the place of the right rail, and only if a branch of
theirs is longer than all before.  Whatever is computed without the right rail is the same
on both pages:

  * the wires of a branch are the same up to the last one, which starts at the same place
    (`exists_wires`);
  * of the connectors, the one where branches part is the same (`splits_connectors`);
  * so a rung stays where it is, but for what reaches to the right (`place_unmoved`), and
    with it the running height (`placeAll_unmoved`).

Nothing is said about the arithmetic: all of this is equality of the numbers themselves, for
any settings at all.
-/

import LadderLogic.Proofs.PageTiling

namespace LadderLogic

variable {α : Type}

/-! ## What stays -/

/-- The line is the same as another, except possibly for where its last wire ends. -/
structure BranchLine.Unmoved (l₀ l : BranchLine α) : Prop where
  y : l.y = l₀.y
  glyphs : l.glyphs = l₀.glyphs
  connectsToSplit : l.connectsToSplit = l₀.connectsToSplit
  connectsToMerge : l.connectsToMerge = l₀.connectsToMerge
  wires : l.wires.dropLast = l₀.wires.dropLast
  /-- The last wires start together, on one level. -/
  last : ∃ w₀ x, l₀.wires.getLast? = some w₀ ∧
    l.wires.getLast? = some { w₀ with stop := ⟨x, w₀.stop.y⟩ }

/-- The rung is the same as another, except possibly for what the right rail decides. -/
structure RungLayout.Unmoved (r₀ r : RungLayout α) : Prop where
  span : r.span = r₀.span
  coilLevel : r.coil.position.y = r₀.coil.position.y
  coilOperand : r.coil.operand = r₀.coil.operand
  coilNegated : r.coil.negated = r₀.coil.negated
  lines : List.Forall₂ BranchLine.Unmoved r₀.lines r.lines
  split : r.connectors.filter (·.kind = .split) = r₀.connectors.filter (·.kind = .split)

/-! ## The longest branch -/

namespace Layout

theorem getD_max?_le {lengths : List Nat} {n : Nat} (h : ∀ x ∈ lengths, x ≤ n) :
    lengths.max?.getD 0 ≤ n := by
  cases hmax : lengths.max? with
  | none => exact Nat.zero_le n
  | some m => exact h m (List.max?_mem hmax)

theorem longestBranch_le_iff {rungs : List Rung} {n : Nat} :
    longestBranch rungs ≤ n ↔ ∀ rung ∈ rungs, ∀ branch ∈ rung.branches, branch.length ≤ n := by
  constructor
  · intro h rung hrung branch hbranch
    exact (length_le_longestBranch hrung hbranch).trans h
  · intro h
    refine getD_max?_le ?_
    rw [List.forall_mem_map]
    intro rung hrung
    refine getD_max?_le ?_
    rw [List.forall_mem_map]
    exact h rung hrung

/-- Rungs without a longer branch leave the longest one as it is. -/
theorem longestBranch_append {a b : List Rung}
    (h : ∀ rung ∈ b, ∀ branch ∈ rung.branches, branch.length ≤ longestBranch a) :
    longestBranch (a ++ b) = longestBranch a := by
  apply Nat.le_antisymm
  · rw [longestBranch_le_iff, List.forall_mem_append]
    exact ⟨longestBranch_le_iff.1 (Nat.le_refl _), h⟩
  · rw [longestBranch_le_iff]
    intro rung hrung branch hbranch
    exact length_le_longestBranch (List.mem_append_left b hrung) hbranch

/-! ## A rung and the right rail -/

namespace Frame

variable [Scalar α] (f : Frame α)

/-- The frame with its right rail moved. -/
def withRight (right : α) : Frame α := { f with right := right }

/-- Only the last wire of a branch depends on the right rail, and only with its end. -/
theorem exists_wires (y x : α) (gs : List (Glyph α)) :
    ∃ front start, ∀ right, (f.withRight right).wires y x gs =
      front ++ [.wire start (f.withRight right).mergeX y] := by
  induction gs generalizing x with
  | nil => exact ⟨[], x, fun right => rfl⟩
  | cons g gs ih =>
    -- a wire in front of a symbol ends at the symbol
    obtain ⟨front, start, hwires⟩ := ih (g.position.x + f.halfSymbol)
    refine ⟨.wire x (g.position.x - f.halfSymbol) y :: front, start, fun right => ?_⟩
    rw [wires, List.cons_append, ← hwires right]
    rfl

theorem branchLine_unmoved (right : α) (parallel : Bool) (branch : Branch) (y : α) :
    (f.branchLine parallel branch y).Unmoved
      ((f.withRight right).branchLine parallel branch y) := by
  obtain ⟨front, start, hwires⟩ := f.exists_wires y f.left (f.glyphs branch y)
  -- both lines have the wires of a moved frame, one of them moved to where it is
  have hold : (f.branchLine parallel branch y).wires =
      front ++ [.wire start f.mergeX y] := hwires f.right
  have hnew : ((f.withRight right).branchLine parallel branch y).wires =
      front ++ [.wire start (f.withRight right).mergeX y] := hwires right
  refine ⟨rfl, rfl, rfl, rfl, ?_, .wire start f.mergeX y, (f.withRight right).mergeX, ?_, ?_⟩
  · rw [hold, hnew, List.dropLast_concat, List.dropLast_concat]
  · rw [hold, List.getLast?_concat]
  · rw [hnew, List.getLast?_concat]
    rfl

/-- Where branches part depends on the levels of the lines alone. -/
theorem splits_connectors (lines : List (BranchLine α)) (coil : Glyph α) (middle : α) :
    (f.connectors lines coil middle).filter (·.kind = .split) =
      match lines.map (·.y) with
      | first :: second :: rest =>
        [.upright f.splitX first ((second :: rest).getLast (List.cons_ne_nil _ _)) .split]
      | _ => [] := by
  match lines with
  | [] => rfl
  | [_] => rfl
  | one :: two :: rest =>
    -- of the four connectors only the first is of this kind
    have hlast : (List.map (·.y) (two :: rest)).getLast (List.cons_ne_nil _ _) =
        ((two :: rest).getLast (List.cons_ne_nil _ _)).y := List.getLast_map _
    exact congrArg (fun last => [Segment.upright f.splitX one.y last .split]) hlast.symm

theorem map_y_lines (rung : Rung) (top : α) :
    (f.place rung top).lines.map (·.y) = rung.branches.mapIdx fun index _ =>
      f.branchY (f.place rung top).span.middle rung.branches.length index := by
  apply List.ext_getElem?
  intro i
  rw [List.getElem?_map, List.getElem?_mapIdx]
  simp only [place, List.getElem?_mapIdx, Option.map_map]
  rfl

/-- A rung stays in its place when the right rail moves. -/
theorem place_unmoved (right : α) (rung : Rung) (top : α) :
    (f.place rung top).Unmoved ((f.withRight right).place rung top) where
  span := rfl
  coilLevel := rfl
  coilOperand := rfl
  coilNegated := rfl
  lines := by
    -- levels are counted from the middle of the rung, which is the same in both frames
    have hold : (f.place rung top).lines = rung.branches.mapIdx fun index branch =>
        f.branchLine (1 < rung.branches.length) branch
          (f.branchY (f.place rung top).span.middle rung.branches.length index) := rfl
    have hnew : ((f.withRight right).place rung top).lines =
        rung.branches.mapIdx fun index branch =>
          (f.withRight right).branchLine (1 < rung.branches.length) branch
            (f.branchY (f.place rung top).span.middle rung.branches.length index) := rfl
    rw [hold, hnew, List.forall₂_iff_get]
    refine ⟨by rw [List.length_mapIdx, List.length_mapIdx], ?_⟩
    intro i hi hi'
    rw [List.get_eq_getElem, List.get_eq_getElem, List.getElem_mapIdx, List.getElem_mapIdx]
    exact f.branchLine_unmoved right _ _ _
  split := by
    have hold : (f.place rung top).connectors = f.connectors (f.place rung top).lines
      (f.place rung top).coil (f.place rung top).span.middle := rfl
    have hnew : ((f.withRight right).place rung top).connectors =
        (f.withRight right).connectors ((f.withRight right).place rung top).lines
          ((f.withRight right).place rung top).coil
          ((f.withRight right).place rung top).span.middle := rfl
    rw [hold, hnew, splits_connectors, splits_connectors, map_y_lines, map_y_lines]
    rfl

/-! ## Rungs below each other -/

theorem placeAll_append (top : α) (a b : List Rung) :
    f.placeAll top (a ++ b) =
      ((f.placeAll top a).1 ++ (f.placeAll (f.placeAll top a).2 b).1,
        (f.placeAll (f.placeAll top a).2 b).2) := by
  induction a generalizing top with
  | nil => rfl
  | cons rung a ih =>
    rw [List.cons_append, placeAll, ih]
    rfl

theorem length_placeAll (top : α) (rungs : List Rung) :
    (f.placeAll top rungs).1.length = rungs.length :=
  (f.placeAll_forall₂ top rungs).length_eq.symm

/-- One rung after another stays in its place. -/
theorem placeAll_unmoved (right top : α) (rungs : List Rung) :
    List.Forall₂ RungLayout.Unmoved (f.placeAll top rungs).1
      ((f.withRight right).placeAll top rungs).1 := by
  induction rungs generalizing top with
  | nil => exact .nil
  | cons rung rest ih => exact .cons (f.place_unmoved right rung top) (ih _)

/-- The running height does not depend on the right rail. -/
theorem placeAll_snd_withRight (right top : α) (rungs : List Rung) :
    ((f.withRight right).placeAll top rungs).2 = (f.placeAll top rungs).2 := by
  induction rungs generalizing top with
  | nil => rfl
  | cons rung rest ih => exact ih _

end Frame
end Layout

/-- Tiling rungs end where the last of them does. -/
theorem Tiles.bottom_eq [Scalar α] {top bottom : α} {rungs : List (RungLayout α)}
    (h : Tiles top rungs bottom) :
    bottom = (rungs.getLast?.map (·.span.bottom)).getD top := by
  induction h with
  | nil y => rfl
  | @cons r rest bottom hrest ih =>
    rw [ih, List.getLast?_cons]
    cases rest.getLast? with
    | none => rfl
    | some last => rfl

/-! ## The page -/

namespace Diagram

variable [Scalar α]

open Layout (longestBranch pageFrame pageWidth)

/-- The page of some rungs with others behind them: in the frame of the whole page, the
others follow where the first ones end. -/
theorem rungs_append (s : LayoutSettings α) (a b : List Rung) :
    (ofRungs s (a ++ b)).rungs =
      ((pageFrame s (a ++ b)).placeAll s.padding a).1 ++
        ((pageFrame s (a ++ b)).placeAll ((pageFrame s (a ++ b)).placeAll s.padding a).2 b).1 := by
  rw [Layout.ofRungs_rungs, Layout.Frame.placeAll_append]

/-- The frames of the two pages differ in the right rail only. -/
theorem pageFrame_append (s : LayoutSettings α) (a b : List Rung) :
    pageFrame s (a ++ b) = (pageFrame s a).withRight (pageWidth s (a ++ b) - s.padding) := rfl

/-- **Appended rungs move nothing.**  On the page of some rungs with others behind them,
the first ones are where they are on their own page: only what the right rail decides may
differ, and nothing does when the pages are equally wide, as they are if the others have no
longer branch.  The others begin where the first ones end. -/
theorem ofRungs_append (s : LayoutSettings α) (a b : List Rung) :
    (ofRungs s a).rungs.length = a.length ∧
    List.Forall₂ RungLayout.Unmoved (ofRungs s a).rungs
      ((ofRungs s (a ++ b)).rungs.take a.length) ∧
    (ofRungs s (a ++ b)).left = (ofRungs s a).left ∧
    (b ≠ [] → ∃ r, (ofRungs s (a ++ b)).rungs[a.length]? = some r ∧
      r.span.top = ((ofRungs s a).rungs.getLast?.map (·.span.bottom)).getD s.padding) ∧
    ((∀ rung ∈ b, ∀ branch ∈ rung.branches, branch.length ≤ longestBranch a) →
      (ofRungs s (a ++ b)).width = (ofRungs s a).width) ∧
    ((ofRungs s (a ++ b)).width = (ofRungs s a).width →
      (ofRungs s (a ++ b)).rungs.take a.length = (ofRungs s a).rungs) := by
  have hold : (ofRungs s a).rungs = ((pageFrame s a).placeAll s.padding a).1 :=
    Layout.ofRungs_rungs s a
  have hnew := rungs_append s a b
  have hmoved := pageFrame_append s a b
  have hsame : (ofRungs s (a ++ b)).width = (ofRungs s a).width →
      pageFrame s (a ++ b) = pageFrame s a := by
    intro hwidth
    have hpage : pageWidth s (a ++ b) = pageWidth s a := hwidth
    rw [pageFrame, pageFrame, hpage]
  -- nothing more is needed of the frames
  generalize pageFrame s (a ++ b) = f at hnew hmoved hsame
  generalize pageFrame s a = f₀ at hold hmoved hsame
  have hlength : a.length = (f.placeAll s.padding a).1.length := (f.length_placeAll _ a).symm
  have hfirst : (ofRungs s (a ++ b)).rungs.take a.length = (f.placeAll s.padding a).1 := by
    rw [hnew, hlength, List.take_left]
  refine ⟨?_, ?_, rfl, ?_, ?_, ?_⟩
  · rw [hold]
    exact f₀.length_placeAll s.padding a
  · rw [hold, hfirst, hmoved]
    exact f₀.placeAll_unmoved _ s.padding a
  · intro hb
    obtain ⟨rung, rest, rfl⟩ := List.exists_cons_of_ne_nil hb
    refine ⟨f.place rung (f.placeAll s.padding a).2, ?_, ?_⟩
    · rw [hnew, hlength, List.getElem?_append_right (Nat.le_refl _), Nat.sub_self]
      rfl
    · -- the running height is the same in both frames
      have hend : (f.placeAll s.padding a).2 = (f₀.placeAll s.padding a).2 := by
        rw [hmoved]
        exact f₀.placeAll_snd_withRight _ s.padding a
      rw [hold, ← (f₀.tiles_placeAll s.padding a).bottom_eq, ← hend]
      rfl
  · intro hshort
    show pageWidth s (a ++ b) = pageWidth s a
    rw [pageWidth, pageWidth, Layout.longestBranch_append hshort]
  · intro hwidth
    rw [hfirst, hsame hwidth, hold]

/-- A lamp behind two rungs, one of which has a longer branch, leaves both as they are. -/
theorem ofRungs_append_lamp :
    let standard : LayoutSettings Float32 := .standard
    let lamp : Rung := ⟨"Lamp", false, [[⟨"Motor", false, .contact⟩]]⟩
    (∀ rung ∈ [lamp], ∀ branch ∈ rung.branches, branch.length ≤ longestBranch motorAndIdle) ∧
    (ofRungs standard (motorAndIdle ++ [lamp])).width = (ofRungs standard motorAndIdle).width ∧
    (ofRungs standard (motorAndIdle ++ [lamp])).rungs.take 2 =
      (ofRungs standard motorAndIdle).rungs := by
  intro standard lamp
  have hshort : ∀ rung ∈ [lamp], ∀ branch ∈ rung.branches,
      branch.length ≤ longestBranch motorAndIdle := by decide
  obtain ⟨-, -, -, -, hwidth, hequal⟩ := ofRungs_append standard motorAndIdle [lamp]
  exact ⟨hshort, hwidth hshort, hequal (hwidth hshort)⟩

end Diagram

end LadderLogic
