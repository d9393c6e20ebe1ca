/-
The geometry of a page in exact arithmetic.

What the layout of a page takes for granted: the sizes that pass the check are positive or
nonnegative and symbols fit their room (`LayoutSettings.Valid`), and the page is wide enough
for the longest branch, with a slot and a half to spare (`room_of_le`).  The places
along a rung are written down once as plain rational expressions.
-/

import Mathlib
import LadderLogic.Settings.Check

namespace LadderLogic

/-! ## Sizes that pass the check -/

/-- Sizes that a page can be laid out with. -/
structure LayoutSettings.Valid (s : LayoutSettings Rat) : Prop where
  elementWidth : 0 < s.elementWidth
  branchSpacing : 0 < s.branchSpacing
  symbolWidth : 0 < s.symbolWidth
  rungSpacing : 0 ≤ s.rungSpacing
  padding : 0 ≤ s.padding
  viewportWidth : 0 ≤ s.viewportWidth
  symbolFits : s.symbolWidth ≤ s.elementWidth

/-- The check accepts no other sizes. -/
theorem LayoutSettings.valid_of_check {s : LayoutSettings Rat} (h : s.check = .ok ()) :
    s.Valid := by
  rw [check] at h
  -- the sizes pass when no search for a fault finds one
  split at h
  · cases h
  · split at h
    · cases h
    · next hpositive =>
      split at h
      · cases h
      · next hnonnegative =>
        split at h
        · cases h
        · next hfits =>
          rw [List.find?_eq_none] at hpositive hnonnegative
          have positive : ∀ f ∈ LayoutField.positive, 0 < s.get f := by
            intro f hf
            simpa [Scalar.lt, Scalar.zero, Scalar.ofNat] using hpositive f hf
          have nonnegative : ∀ f ∈ LayoutField.nonnegative, 0 ≤ s.get f := by
            intro f hf
            simpa [Scalar.lt, Scalar.zero, Scalar.ofNat] using hnonnegative f hf
          exact {
            elementWidth := positive .elementWidth (by decide)
            branchSpacing := positive .branchSpacing (by decide)
            symbolWidth := positive .symbolWidth (by decide)
            rungSpacing := nonnegative .rungSpacing (by decide)
            padding := nonnegative .padding (by decide)
            viewportWidth := nonnegative .viewportWidth (by decide)
            symbolFits := by simpa [Scalar.lt] using hfits }

namespace Layout

/-! ## Places along a rung -/

namespace Frame

variable (f : Frame Rat)

theorem splitX_eq : f.splitX = f.left + f.settings.elementWidth / 2 := rfl

theorem mergeX_eq : f.mergeX = f.right - f.settings.elementWidth := rfl

theorem coilX_eq : f.coilX = f.right - f.settings.elementWidth / 2 := rfl

theorem halfSymbol_eq : f.halfSymbol = f.settings.symbolWidth / 2 := rfl

theorem contactX_eq (index : Nat) :
    f.contactX index = f.left + f.settings.elementWidth * (index + 1) := by
  rw [← Nat.cast_one]
  rfl

/-- Around the middle, branches lie at equal distances. -/
theorem branchY_eq (middle : Rat) {branches index : Nat} (h : index < branches) :
    f.branchY middle branches index =
      middle + (index - (branches - 1) / 2) * f.settings.branchSpacing := by
  have hne : branches ≠ 0 := by omega
  have hoffset : (firstOffset branches : Rat) = ((branches - 1 : Nat) : Rat) / 2 := by
    rw [firstOffset, if_neg hne]
    rfl
  rw [branchY, hoffset, Nat.cast_sub (by omega), Nat.cast_one]
  rfl

end Frame

/-! ## The width of a page -/

theorem ofRungs_rungs {α : Type} [Scalar α] (s : LayoutSettings α) (rungs : List Rung) :
    (Diagram.ofRungs s rungs).rungs = ((pageFrame s rungs).placeAll s.padding rungs).1 := rfl

theorem ofRungs_height {α : Type} [Scalar α] (s : LayoutSettings α) (rungs : List Rung) :
    (Diagram.ofRungs s rungs).height =
      ((pageFrame s rungs).placeAll s.padding rungs).2 + s.padding := rfl

theorem pageWidth_eq_max (s : LayoutSettings Rat) (rungs : List Rung) :
    pageWidth s rungs =
      max s.viewportWidth (2 * s.padding + s.elementWidth * (longestBranch rungs + 3 / 2)) := by
  -- the larger of two numbers, written out
  have hwidth : pageWidth s rungs =
      if 2 * s.padding + s.elementWidth * (longestBranch rungs + 3 / 2) < s.viewportWidth then
        s.viewportWidth
      else 2 * s.padding + s.elementWidth * (longestBranch rungs + 3 / 2) := rfl
  rw [hwidth]
  split
  · next h => exact (max_eq_left h.le).symm
  · next h => exact (max_eq_right (not_lt.1 h)).symm

/-- A page is as wide as the longest branch needs. -/
theorem content_le_pageWidth (s : LayoutSettings Rat) (rungs : List Rung) :
    2 * s.padding + s.elementWidth * (longestBranch rungs + 3 / 2) ≤ pageWidth s rungs := by
  rw [pageWidth_eq_max]
  exact le_max_right _ _

theorem viewportWidth_le_pageWidth (s : LayoutSettings Rat) (rungs : List Rung) :
    s.viewportWidth ≤ pageWidth s rungs := by
  rw [pageWidth_eq_max]
  exact le_max_left _ _

theorem length_le_longestBranch {rungs : List Rung} {rung : Rung} {branch : Branch}
    (hrung : rung ∈ rungs) (hbranch : branch ∈ rung.branches) :
    branch.length ≤ longestBranch rungs := by
  have hlongest : branch.length ≤ rung.longest :=
    List.le_max?_getD_of_mem (List.mem_map_of_mem hbranch)
  exact hlongest.trans (List.le_max?_getD_of_mem (List.mem_map_of_mem hrung))

/-- There is room between the rails for as many slots, and for one and a half more. -/
def Frame.Room (f : Frame Rat) (slots : Nat) : Prop :=
  f.left + f.settings.elementWidth * (slots + 3 / 2) ≤ f.right

/-- A page has room for every branch of its rungs. -/
theorem room_of_le {s : LayoutSettings Rat} (hs : s.Valid) {rungs : List Rung} {slots : Nat}
    (h : slots ≤ longestBranch rungs) : (pageFrame s rungs).Room slots := by
  have hwidth := content_le_pageWidth s rungs
  have hslots : (slots : Rat) ≤ longestBranch rungs := by exact_mod_cast h
  have hgrow : s.elementWidth * (slots + 3 / 2) ≤ s.elementWidth * (longestBranch rungs + 3 / 2) :=
    mul_le_mul_of_nonneg_left (by linarith) (le_of_lt hs.elementWidth)
  show s.padding + s.elementWidth * (slots + 3 / 2) ≤ pageWidth s rungs - s.padding
  linarith

/-! ## Rungs below each other -/

/-- Every rung of a page is placed somewhere in its frame. -/
theorem Frame.placeAll_forall₂ {α : Type} [Scalar α] (f : Frame α) (top : α) (rungs : List Rung) :
    List.Forall₂ (fun rung placed => ∃ y, placed = f.place rung y) rungs
      (f.placeAll top rungs).1 := by
  induction rungs generalizing top with
  | nil => exact .nil
  | cons rung rest ih => exact .cons ⟨top, rfl⟩ (ih _)

end Layout
end LadderLogic
