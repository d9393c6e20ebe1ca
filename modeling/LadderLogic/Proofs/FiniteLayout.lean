/-
Layouts whose numbers are all finite.

Along a rung every place is computed from numbers of one sign by operations that grow with
them, so it is at most the width of the page, whatever is rounded.  Down the page branches lie
around the middle of their rung, so that the levels of the last ones are computed in another
way than the height is.  They are no lower than the page but for a few units in the last place
(`Levels.branch`), for which there is a `leeway`.  So if the page has room for that, and for
half a symbol around everything, then all of it is finite (`fits_ofRungs`).  Sizes and counts
that are not enormous leave that room (`room_of_moderate`); margins of half the range of floats
do not (`width_infinite_of_padding`).
-/

import Mathlib
import LadderLogic.Proofs.Binary32
import LadderLogic.Proofs.JsonText
import LadderLogic.Proofs.PageGeometry

namespace LadderLogic

open Rounding

/-! ## Sizes that pass the check -/

/-- Sizes that are finite, and have the sign that they should have. -/
structure LayoutSettings.Sound (s : LayoutSettings Float32) : Prop where
  finite : ∀ f, (s.get f).isFinite = true
  elementWidth : 0 < value s.elementWidth
  branchSpacing : 0 < value s.branchSpacing
  symbolWidth : 0 < value s.symbolWidth
  rungSpacing : 0 ≤ value s.rungSpacing
  padding : 0 ≤ value s.padding
  viewportWidth : 0 ≤ value s.viewportWidth

/-- The check accepts no other sizes. -/
theorem LayoutSettings.sound_of_check {s : LayoutSettings Float32} (h : s.check = .ok ()) :
    s.Sound := by
  obtain ⟨hzero, hvalue⟩ := value_ofNat (n := 0) (by norm_num)
  rw [check] at h
  split at h
  · cases h
  · next hfinite =>
    split at h
    · cases h
    · next hpositive =>
      split at h
      · cases h
      · next hnonnegative =>
        rw [List.find?_eq_none] at hfinite hpositive hnonnegative
        have finite : ∀ f, (s.get f).isFinite = true := by
          intro f
          have := hfinite f (by cases f <;> decide)
          simpa [Scalar.isFinite] using this
        have positive : ∀ f ∈ LayoutField.positive, 0 < value (s.get f) := by
          intro f hf
          have hlt : Float32.ofNat 0 < s.get f := by
            have := hpositive f hf
            rw [Bool.not_eq_true, Bool.not_eq_false'] at this
            exact of_decide_eq_true this
          rwa [lt_iff_value hzero (finite f), hvalue, Nat.cast_zero] at hlt
        have nonnegative : ∀ f ∈ LayoutField.nonnegative, 0 ≤ value (s.get f) := by
          intro f hf
          have hlt : ¬ s.get f < Float32.ofNat 0 := by
            have := hnonnegative f hf
            rw [Bool.not_eq_true] at this
            exact of_decide_eq_false this
          rwa [lt_iff_value (finite f) hzero, hvalue, Nat.cast_zero, not_lt] at hlt
        exact {
          finite
          elementWidth := positive .elementWidth (by decide)
          branchSpacing := positive .branchSpacing (by decide)
          symbolWidth := positive .symbolWidth (by decide)
          rungSpacing := nonnegative .rungSpacing (by decide)
          padding := nonnegative .padding (by decide)
          viewportWidth := nonnegative .viewportWidth (by decide) }

/-! ## Bounds that rounding keeps -/

namespace Rounding

/-- A number is finite, and no farther from zero than a bound. -/
def Within (bound a : Float32) : Prop := a.isFinite = true ∧ |value a| ≤ value bound

variable {a b p q : Float32}

theorem Within.of_nonneg (ha : a.isFinite = true) (hle : 0 ≤ value a) : Within a a :=
  ⟨ha, (abs_of_nonneg hle).le⟩

theorem Within.nonneg (h : Within p a) : 0 ≤ value p := (abs_nonneg _).trans h.2

theorem Within.trans (h : Within p a) (hle : value p ≤ value q) : Within q a :=
  ⟨h.1, h.2.trans hle⟩

theorem Within.of_rounds {r r' : Float32} {x y : ℚ} (h : Rounds r x) (h' : Rounds r' y)
    (hr' : r'.isFinite = true) (hxy : |x| ≤ y) : Within r' r :=
  h.abs_le h' hr' hxy

/-- An exact number within a bound stays there when it is rounded. -/
theorem Within.of_abs_le {r : Float32} {x : ℚ} (h : Rounds r x) (hp : p.isFinite = true)
    (hx : |x| ≤ value p) : Within p r :=
  .of_rounds h (rounds_value hp) hp hx

theorem Within.add (ha : Within p a) (hb : Within q b) (h : (p + q).isFinite = true) :
    Within (p + q) (a + b) := by
  obtain ⟨hp, hq⟩ := isFinite_of_add h
  refine .of_rounds (rounds_add ha.1 hb.1) (rounds_add hp hq) h ?_
  exact (abs_add_le _ _).trans (add_le_add ha.2 hb.2)

theorem Within.sub (ha : Within p a) (hb : Within q b) (h : (p + q).isFinite = true) :
    Within (p + q) (a - b) := by
  obtain ⟨hp, hq⟩ := isFinite_of_add h
  refine .of_rounds (rounds_sub ha.1 hb.1) (rounds_add hp hq) h ?_
  exact (abs_sub _ _).trans (add_le_add ha.2 hb.2)

theorem Within.mul (ha : Within p a) (hb : Within q b) (h : (p * q).isFinite = true) :
    Within (p * q) (a * b) := by
  obtain ⟨hp, hq⟩ := isFinite_of_mul h
  refine .of_rounds (rounds_mul ha.1 hb.1) (rounds_mul hp hq) h ?_
  rw [abs_mul]
  exact mul_le_mul ha.2 hb.2 (abs_nonneg _) ha.nonneg

/-- The difference of numbers of one sign is no larger than they are. -/
theorem Within.sub_of_nonneg (ha : Within p a) (hb : Within p b) (hp : p.isFinite = true)
    (hva : 0 ≤ value a) (hvb : 0 ≤ value b) : Within p (a - b) := by
  refine .of_abs_le (rounds_sub ha.1 hb.1) hp ?_
  have hle := ha.2
  have hle' := hb.2
  rw [abs_of_nonneg hva] at hle
  rw [abs_of_nonneg hvb] at hle'
  exact abs_le.2 ⟨by linarith, by linarith⟩

theorem le_value_add_left (h : (p + q).isFinite = true) (hq : 0 ≤ value q) :
    value p ≤ value (p + q) := by
  obtain ⟨hpf, hqf⟩ := isFinite_of_add h
  exact (rounds_value hpf).mono (rounds_add hpf hqf) hpf h (by linarith)

theorem le_value_add_right (h : (p + q).isFinite = true) (hp : 0 ≤ value p) :
    value q ≤ value (p + q) := by
  obtain ⟨hpf, hqf⟩ := isFinite_of_add h
  exact (rounds_value hqf).mono (rounds_add hpf hqf) hqf h (by linarith)

/-! ### Counts and proportions -/

theorem Within.ofNat {m n : ℕ} (hn : (Float32.ofNat n).isFinite = true) (h : m ≤ n) :
    Within (Float32.ofNat n) (Float32.ofNat m) := by
  refine .of_rounds (rounds_ofNat m) (rounds_ofNat n) hn ?_
  rw [Nat.abs_cast]
  exact_mod_cast h

theorem value_ofNat_nonneg {n : ℕ} (hn : (Float32.ofNat n).isFinite = true) :
    0 ≤ value (Float32.ofNat n) :=
  (rounds_ofNat n).nonneg hn (Nat.cast_nonneg n)

theorem rounds_ratio {m n : ℕ} (hm : m < 2 ^ 23) (hn : n < 2 ^ 23) (hpos : 0 < n) :
    Rounds (Scalar.ratio m n : Float32) ((m : ℚ) / n) := by
  obtain ⟨hmf, hmv⟩ := value_ofNat hm
  obtain ⟨hnf, hnv⟩ := value_ofNat hn
  have hne : value (Float32.ofNat n) ≠ 0 := by
    rw [hnv]
    exact_mod_cast hpos.ne'
  have h := rounds_div hmf hnf hne
  rwa [hmv, hnv] at h

theorem rounds_half (ha : a.isFinite = true) : Rounds (Scalar.half a) (value a / 2) := by
  obtain ⟨hf, hv⟩ := value_ofNat (n := 2) (by norm_num)
  have hne : value (Float32.ofNat 2) ≠ 0 := by
    rw [hv]
    norm_num
  have h := rounds_div ha hf hne
  rwa [hv] at h

theorem Within.half (h : Within p a) (hp : p.isFinite = true) : Within p (Scalar.half a) := by
  refine .of_abs_le (rounds_half h.1) hp ?_
  rw [abs_div, abs_two]
  have := abs_nonneg (value a)
  have := h.2
  linarith

theorem value_half_nonneg (h : Within p a) (hp : p.isFinite = true) (ha : 0 ≤ value a) :
    0 ≤ value (Scalar.half a) :=
  (rounds_half h.1).nonneg (h.half hp).1 (by linarith)

theorem within_half_self (ha : a.isFinite = true) (hle : 0 ≤ value a) :
    Within (Scalar.half a) (Scalar.half a) :=
  have own := Within.of_nonneg ha hle
  .of_nonneg (own.half ha).1 (value_half_nonneg own ha hle)

/-- Counts are halved without rounding. -/
theorem value_half_ofNat {n : ℕ} (hn : (Float32.ofNat n).isFinite = true) :
    value (Scalar.half (Float32.ofNat n)) = value (Float32.ofNat n) / 2 := by
  have hhalf := ((Within.ofNat hn le_rfl).half hn).1
  rw [(rounds_half hn).value_eq hhalf]
  rcases Nat.eq_zero_or_pos n with rfl | hpos
  · rw [(value_ofNat (n := 0) (by norm_num)).2, Nat.cast_zero, zero_div, round_zero]
  · have hone := (Within.ofNat hn hpos).2
    rw [(value_ofNat (n := 1) (by norm_num)).2, Nat.cast_one, abs_one] at hone
    exact round_half_value hn (hone.trans (le_abs_self _))

/-- A part of a number is no larger than the number. -/
theorem Within.mul_ratio (h : Within p a) (hp : p.isFinite = true) {m n : ℕ} (hmn : m ≤ n)
    (hn : n < 2 ^ 23) (hpos : 0 < n) : Within p (a * Scalar.ratio m n) := by
  obtain ⟨hone, hvalue⟩ := value_ofNat (n := 1) (by norm_num)
  have hpart : Within (Float32.ofNat 1) (Scalar.ratio m n) := by
    refine .of_abs_le (rounds_ratio (hmn.trans_lt hn) hn hpos) hone ?_
    rw [hvalue, abs_of_nonneg (by positivity), Nat.cast_one]
    exact div_le_one_of_le₀ (by exact_mod_cast hmn) (Nat.cast_nonneg n)
  refine .of_abs_le (rounds_mul h.1 hpart.1) hp ?_
  have hle := hpart.2
  rw [hvalue, Nat.cast_one] at hle
  rw [abs_mul]
  exact (mul_le_of_le_one_right (abs_nonneg _) hle).trans h.2

/-- If the larger of two numbers is finite, the second one did not overflow. -/
theorem Rising.le_larger (ha : a.isFinite = true) (hb : Rising b)
    (h : (Scalar.larger a b).isFinite = true) :
    b.isFinite = true ∧ value b ≤ value (Scalar.larger a b) := by
  have hlarger : Scalar.larger a b = if b < a || b.isNaN then a else b := rfl
  rw [hlarger, hb.isNaN, Bool.or_false] at h ⊢
  rcases hb with ⟨hb, -⟩ | hb
  · refine ⟨hb, ?_⟩
    split
    · next hlt => exact ((lt_iff_value hb ha).1 (of_decide_eq_true hlt)).le
    · exact le_rfl
  · -- An infinite second number is the larger one.
    exfalso
    have hfinite : b.isFinite = b.toModel.unpack.isFinite := rfl
    rw [decide_eq_false (not_lt_of_infinity ha hb), if_neg Bool.false_ne_true, hfinite, hb] at h
    cases h

end Rounding

/-! ## Along a rung -/

namespace Layout

variable {s : LayoutSettings Float32} {rungs : List Rung}

def margins (s : LayoutSettings Float32) : Float32 := Scalar.ofNat 2 * s.padding

/-- The room that a page has for symbols, in places of one symbol. -/
def slots (rungs : List Rung) : Float32 :=
  Scalar.ofNat (longestBranch rungs) + Scalar.ratio 3 2

theorem rounds_margins (hs : s.Sound) : Rounds (margins s) (2 * value s.padding) := by
  obtain ⟨hf, hv⟩ := value_ofNat (n := 2) (by norm_num)
  have h := rounds_mul hf (hs.finite .padding)
  rwa [hv] at h

theorem rising_content (hs : s.Sound) (rungs : List Rung) :
    Rising (margins s + s.elementWidth * slots rungs) := by
  have hmargins : Rising (margins s) :=
    (rounds_margins hs).rising (mul_nonneg (by norm_num) hs.padding)
  have hslots : Rising (slots rungs) :=
    ((rounds_ofNat _).rising (Nat.cast_nonneg _)).add
      ((rounds_ratio (by norm_num) (by norm_num) (by norm_num)).rising (by norm_num))
  exact hmargins.add (hslots.mul (hs.finite .elementWidth) hs.elementWidth)

/-- The places along a rung of up to some number of contacts, all of them on the page. -/
structure Frame.Along (f : Frame Float32) (width : Float32) (contacts : ℕ) : Prop where
  left : Within width f.left
  right : Within width f.right
  splitX : Within width f.splitX
  mergeX : Within width f.mergeX
  coilX : Within width f.coilX
  contactX : ∀ index < contacts, Within width (f.contactX index)

theorem content_le_width (hs : s.Sound) (hw : (pageWidth s rungs).isFinite = true) :
    (margins s + s.elementWidth * slots rungs).isFinite = true ∧
      value (margins s + s.elementWidth * slots rungs) ≤ value (pageWidth s rungs) :=
  (rising_content hs rungs).le_larger (hs.finite .viewportWidth) hw

theorem within_margins (hs : s.Sound) (h : (margins s).isFinite = true) :
    Within (margins s) s.padding := by
  have hpadding := hs.padding
  refine .of_rounds (rounds_value (hs.finite .padding)) (rounds_margins hs) h ?_
  rw [abs_of_nonneg hpadding]
  linarith

/-- There is a place for every contact, and the place of one symbol more. -/
theorem within_slots (h : (slots rungs).isFinite = true) :
    1 ≤ value (slots rungs) ∧ ∀ index < longestBranch rungs,
      Within (slots rungs) (Float32.ofNat index + Float32.ofNat 1) := by
  obtain ⟨hcount, hratio⟩ := isFinite_of_add h
  have one : Within (Scalar.ratio 3 2) (Float32.ofNat 1) := by
    refine .of_rounds (rounds_ofNat 1)
      (rounds_ratio (m := 3) (n := 2) (by norm_num) (by norm_num) (by norm_num)) hratio ?_
    norm_num
  constructor
  · have hle := one.2.trans (le_value_add_right h (value_ofNat_nonneg hcount))
    rwa [(value_ofNat (n := 1) (by norm_num)).2, Nat.cast_one, abs_one] at hle
  · intro index hindex
    exact (Within.ofNat hcount hindex.le).add one h

theorem within_room (hs : s.Sound) (h : (s.elementWidth * slots rungs).isFinite = true) :
    Within (s.elementWidth * slots rungs) s.elementWidth := by
  obtain ⟨hslot, hslots⟩ := isFinite_of_mul h
  refine .of_rounds (rounds_value hslot) (rounds_mul hslot hslots) h ?_
  rw [abs_of_nonneg hs.elementWidth.le]
  exact le_mul_of_one_le_right hs.elementWidth.le (within_slots hslots).1

/-- On a page of finite width nothing along a rung is beyond the width. -/
theorem along_pageFrame (hs : s.Sound) (hw : (pageWidth s rungs).isFinite = true) :
    (pageFrame s rungs).Along (pageWidth s rungs) (longestBranch rungs) := by
  obtain ⟨hcontent, hle⟩ := content_le_width hs hw
  obtain ⟨hmargins, hroom⟩ := isFinite_of_add hcontent
  obtain ⟨hslot, hslots⟩ := isFinite_of_mul hroom
  have margin := within_margins hs hmargins
  have room := within_room hs hroom
  have element : Within s.elementWidth s.elementWidth := .of_nonneg hslot hs.elementWidth.le
  -- Both parts of the content are within the width, and so is what the page is cut short by.
  have left : Within (pageWidth s rungs) s.padding :=
    margin.trans ((le_value_add_left hcontent room.nonneg).trans hle)
  have slot : Within (pageWidth s rungs) s.elementWidth :=
    room.trans ((le_value_add_right hcontent margin.nonneg).trans hle)
  have page : Within (pageWidth s rungs) (pageWidth s rungs) := .of_nonneg hw left.nonneg
  have right : Within (pageWidth s rungs) (pageFrame s rungs).right :=
    page.sub_of_nonneg left hw left.nonneg hs.padding
  have hright : 0 ≤ value (pageFrame s rungs).right := by
    refine (rounds_sub hw (hs.finite .padding)).nonneg right.1 (sub_nonneg.2 ?_)
    exact (le_abs_self _).trans left.2
  -- Splits and contacts are to the right of the margin, by no more than the room for contacts;
  -- the ends of the branches and the coil are to the left of the right rail.
  exact {
    left
    right
    splitX := (margin.add (room.half hroom) hcontent).trans hle
    mergeX := right.sub_of_nonneg slot hw hright hs.elementWidth.le
    coilX := right.sub_of_nonneg (slot.half hw) hw hright
      (value_half_nonneg slot hw hs.elementWidth.le)
    contactX := fun index hindex =>
      (margin.add (element.mul ((within_slots hslots).2 index hindex) hroom) hcontent).trans hle }

/-! ## Down the page -/

namespace Frame

variable {f : Frame Float32} {top : Float32}

theorem value_rungHeight_nonneg (hs : f.settings.Sound) {count : ℕ}
    (h : (f.rungHeight count).isFinite = true) : 0 ≤ value (f.rungHeight count) := by
  obtain ⟨hbranches, hspacing⟩ := isFinite_of_add h
  obtain ⟨hcount, hbranch⟩ := isFinite_of_mul hbranches
  have hproduct := mul_nonneg (value_ofNat_nonneg hcount) hs.branchSpacing.le
  have := (rounds_mul hcount hbranch).nonneg hbranches hproduct
  exact (rounds_add hbranches hspacing).nonneg h (add_nonneg this hs.rungSpacing)

/-- A branch is at most half as many distances from the middle as there are others. -/
theorem within_offset {count index : ℕ} (hindex : index < count)
    (hcount : (Float32.ofNat (count - 1)).isFinite = true) :
    Within (Scalar.half (Float32.ofNat (count - 1))) (Float32.ofNat index - firstOffset count) := by
  have hfirst : (firstOffset count : Float32) = Scalar.half (Float32.ofNat (count - 1)) :=
    if_neg (Nat.ne_zero_of_lt hindex)
  have own : Within (Float32.ofNat (count - 1)) (Float32.ofNat index) := .ofNat hcount (by omega)
  have half := within_half_self hcount (value_ofNat_nonneg hcount)
  rw [hfirst]
  refine .of_abs_le (rounds_sub own.1 half.1) half.1 ?_
  -- From zero to the last index, all are as far from the middle as the ends at most.
  have hhalf := value_half_ofNat hcount
  have hindex := own.2
  have hnonneg := value_ofNat_nonneg own.1
  rw [abs_of_nonneg hnonneg] at hindex
  exact abs_le.2 ⟨by linarith, by linarith⟩

/-- Before it is rounded, the distance of a branch from the middle is at most half of all
distances. -/
theorem abs_mul_spacing_le (hs : f.settings.Sound) {count index : ℕ} (hindex : index < count)
    (hcount : (Float32.ofNat (max count 1)).isFinite = true) :
    (Float32.ofNat index - firstOffset count).isFinite = true ∧
      |value (Float32.ofNat index - firstOffset count) * value f.settings.branchSpacing| ≤
        value (Float32.ofNat (max count 1)) * value f.settings.branchSpacing / 2 := by
  have others : Within (Float32.ofNat (max count 1)) (Float32.ofNat (count - 1)) :=
    .ofNat hcount (by omega)
  obtain ⟨hfinite, hoffset⟩ := within_offset hindex others.1
  have hothers := (le_abs_self _).trans others.2
  rw [value_half_ofNat others.1] at hoffset
  refine ⟨hfinite, ?_⟩
  rw [abs_mul, abs_of_pos hs.branchSpacing, mul_div_right_comm]
  exact mul_le_mul_of_nonneg_right (by linarith) hs.branchSpacing.le

/-- Branches are within half the height of their rung, but for what is rounded. -/
theorem abs_distance_le (hs : f.settings.Sound) {count index : ℕ} (hindex : index < count)
    (h : (f.rungHeight count).isFinite = true) :
    ((Float32.ofNat index - firstOffset count) * f.settings.branchSpacing).isFinite = true ∧
      |value ((Float32.ofNat index - firstOffset count) * f.settings.branchSpacing)| ≤
        value (f.rungHeight count) / 2 + 2 ^ 104 := by
  have hbranches : (Float32.ofNat (max count 1) * f.settings.branchSpacing).isFinite = true :=
    (isFinite_of_add h).1
  have hle : value (Float32.ofNat (max count 1) * f.settings.branchSpacing) ≤
      value (f.rungHeight count) := le_value_add_left h hs.rungSpacing
  obtain ⟨hcount, hspacing⟩ := isFinite_of_mul hbranches
  obtain ⟨hoffset, hexact⟩ := abs_mul_spacing_le hs hindex hcount
  have hall := rounds_mul hcount hspacing
  have hdistance := rounds_mul hoffset hspacing
  have hfinite := hdistance.isFinite_of_le hall hbranches
    (hexact.trans (half_le_self (mul_nonneg (value_ofNat_nonneg hcount) hs.branchSpacing.le)))
  have hnear := abs_le.1 (hdistance.abs_sub_le hfinite)
  have hnearAll := abs_le.1 (hall.abs_sub_le hbranches)
  rw [abs_le] at hexact
  exact ⟨hfinite, abs_le.2 ⟨by linarith, by linarith⟩⟩

/-- The levels of a rung that ends at a finite height. -/
structure Levels (f : Frame Float32) (top bottom : Float32) (count : ℕ) : Prop where
  start : Within bottom top
  height : Within bottom (f.rungHeight count)
  middle : Within bottom (VerticalSpan.middle ⟨top, f.rungHeight count⟩)
  /-- Before it is rounded, the level of a branch is hardly beyond the end of the rung. -/
  branch : ∀ index < count, ∃ y,
    Rounds (f.branchY (VerticalSpan.middle ⟨top, f.rungHeight count⟩) count index) y ∧
      |y| ≤ value bottom + 2 ^ 106

theorem Levels.trans {bottom lower : Float32} {count : ℕ} (h : f.Levels top bottom count)
    (hle : value bottom ≤ value lower) : f.Levels top lower count := by
  refine ⟨h.start.trans hle, h.height.trans hle, h.middle.trans hle, fun index hindex => ?_⟩
  obtain ⟨y, hrounds, hy⟩ := h.branch index hindex
  exact ⟨y, hrounds, by linarith⟩

theorem levels_of_isFinite (hs : f.settings.Sound) {count : ℕ} (htop : 0 ≤ value top)
    (h : (top + f.rungHeight count).isFinite = true) :
    f.Levels top (top + f.rungHeight count) count := by
  obtain ⟨htopFinite, hheight⟩ := isFinite_of_add h
  have hnonneg := value_rungHeight_nonneg hs hheight
  have start : Within top top := .of_nonneg htopFinite htop
  have height : Within (f.rungHeight count) (f.rungHeight count) := .of_nonneg hheight hnonneg
  have hle := le_value_add_right h htop
  have half := height.half hheight
  have middle : Within (top + f.rungHeight count)
      (VerticalSpan.middle ⟨top, f.rungHeight count⟩) := start.add half h
  have hmiddle : Rounds (VerticalSpan.middle ⟨top, f.rungHeight count⟩)
      (value top + value (Scalar.half (f.rungHeight count))) := rounds_add htopFinite half.1
  refine ⟨start.trans (le_value_add_left h height.nonneg), height.trans hle, middle, ?_⟩
  intro index hindex
  obtain ⟨hfinite, hdistance⟩ := abs_distance_le hs hindex hheight
  refine ⟨value (VerticalSpan.middle ⟨top, f.rungHeight count⟩) +
    value ((Float32.ofNat index - firstOffset count) * f.settings.branchSpacing),
    rounds_add middle.1 hfinite, ?_⟩
  -- The middle is half the height below the top, and the branch half the height around it.
  have hpositive := hmiddle.nonneg middle.1
    (add_nonneg htop (value_half_nonneg height hheight hnonneg))
  have hhalf := abs_le.1 ((rounds_half hheight).abs_sub_le half.1)
  have hnear := abs_le.1 (hmiddle.abs_sub_le middle.1)
  have hbottom := abs_le.1 ((rounds_add htopFinite hheight).abs_sub_le h)
  rw [abs_le] at hdistance
  exact abs_le.2 ⟨by linarith, by linarith⟩

/-- What ends at a finite height began at one. -/
theorem isFinite_of_placeAll {rungs : List Rung}
    (h : (f.placeAll top rungs).2.isFinite = true) : top.isFinite = true := by
  induction rungs generalizing top with
  | nil => exact h
  | cons rung rest ih => exact (isFinite_of_add (ih h)).1

/-- Rungs go down the page, and none of them beyond its end. -/
theorem placeAll_descends (hs : f.settings.Sound) {rungs : List Rung} (htop : 0 ≤ value top)
    (h : (f.placeAll top rungs).2.isFinite = true) :
    value top ≤ value (f.placeAll top rungs).2 ∧
      ∀ placed ∈ (f.placeAll top rungs).1, ∃ rung ∈ rungs, ∃ y, placed = f.place rung y ∧
        f.Levels y (f.placeAll top rungs).2 rung.branches.length := by
  induction rungs generalizing top with
  | nil => exact ⟨le_rfl, fun placed hplaced => absurd hplaced List.not_mem_nil⟩
  | cons rung rest ih =>
    -- The rest of the rungs begin where this one ends, which is finite as their end is.
    have hbottom : (top + f.rungHeight rung.branches.length).isFinite = true :=
      isFinite_of_placeAll h
    have levels := levels_of_isFinite hs htop hbottom
    have hle := (abs_of_nonneg htop).ge.trans levels.start.2
    obtain ⟨hdown, below⟩ := ih (htop.trans hle) h
    refine ⟨hle.trans hdown, fun placed hplaced => ?_⟩
    rcases List.mem_cons.1 hplaced with rfl | hplaced
    · exact ⟨rung, List.mem_cons_self, top, rfl, levels.trans hdown⟩
    · obtain ⟨lower, hlower, y, rfl, hy⟩ := below placed hplaced
      exact ⟨lower, List.mem_cons_of_mem _ hlower, y, rfl, hy⟩

end Frame

/-- Levels of branches may be so much beyond the height of the page: four units in the last place
of the largest floats. -/
def leeway : Float32 := Float32.ofNat (2 ^ 106)

theorem value_leeway : leeway.isFinite = true ∧ value leeway = 2 ^ 106 := by
  have hrounds := rounds_ofNat (2 ^ 106)
  rw [Nat.cast_pow, Nat.cast_ofNat] at hrounds
  have hround := round_two_pow 106
  obtain ⟨hfinite, hvalue⟩ := hrounds.finite (by rw [hround]; norm_num)
  exact ⟨hfinite, hvalue.trans hround⟩

theorem rounds_add_leeway {height : Float32} (h : (height + leeway).isFinite = true) :
    Rounds (height + leeway) (value height + 2 ^ 106) := by
  have hrounds := rounds_add (isFinite_of_add h).1 value_leeway.1
  rwa [value_leeway.2] at hrounds

theorem le_value_add_leeway {height : Float32} (h : (height + leeway).isFinite = true) :
    value height ≤ value (height + leeway) := by
  refine le_value_add_left h ?_
  rw [value_leeway.2]
  positivity

end Layout

/-! ## Everything on the page -/

/-- A point is within a width and a height. -/
def Point.Fits (wide tall : Float32) (p : Point Float32) : Prop := Within wide p.x ∧ Within tall p.y

def Segment.Fits (wide tall : Float32) (s : Segment Float32) : Prop :=
  s.start.Fits wide tall ∧ s.stop.Fits wide tall

/-- The symbols of a branch are within one width, and its wires within another one. -/
structure BranchLine.Fits (width wide tall : Float32) (l : BranchLine Float32) : Prop where
  level : Within tall l.y
  glyphs : ∀ g ∈ l.glyphs, g.position.Fits width tall
  wires : ∀ s ∈ l.wires, s.Fits wide tall

structure RungLayout.Fits (width wide tall : Float32) (r : RungLayout Float32) : Prop where
  top : Within tall r.span.top
  height : Within tall r.span.height
  coil : r.coil.position.Fits width tall
  lines : ∀ l ∈ r.lines, l.Fits width wide tall
  connectors : ∀ s ∈ r.connectors, s.Fits wide tall

namespace Layout.Frame

variable {f : Frame Float32} {width tall y : Float32} {contacts : ℕ}

theorem fits_glyphs (hf : f.Along width contacts) {branch : Branch}
    (hbranch : branch.length ≤ contacts) (hy : Within tall y) :
    ∀ g ∈ f.glyphs branch y, g.position.Fits width tall := by
  intro g hg
  obtain ⟨index, hindex, rfl⟩ := List.mem_mapIdx.1 hg
  exact ⟨hf.contactX index (hindex.trans_le hbranch), hy⟩

section Wires

variable (hs : f.settings.Sound) (hwide : (width + f.halfSymbol).isFinite = true)

include hs in
theorem within_halfSymbol : Within f.halfSymbol f.halfSymbol :=
  within_half_self (hs.finite .symbolWidth) hs.symbolWidth.le

include hs hwide

theorem within_wide {x : Float32} (hx : Within width x) :
    Within (width + f.halfSymbol) x :=
  hx.trans (le_value_add_left hwide (within_halfSymbol hs).nonneg)

/-- The ends of the wires at a symbol are within the width and half a symbol. -/
theorem within_ends {x : Float32} (hx : Within width x) :
    Within (width + f.halfSymbol) (x - f.halfSymbol) ∧
      Within (width + f.halfSymbol) (x + f.halfSymbol) :=
  ⟨hx.sub (within_halfSymbol hs) hwide, hx.add (within_halfSymbol hs) hwide⟩

theorem fits_wires (hf : f.Along width contacts) (hy : Within tall y) {x : Float32}
    {glyphs : List (Glyph Float32)} (hx : Within (width + f.halfSymbol) x)
    (hglyphs : ∀ g ∈ glyphs, g.position.Fits width tall) :
    ∀ s ∈ f.wires y x glyphs, s.Fits (width + f.halfSymbol) tall := by
  induction glyphs generalizing x with
  | nil =>
    intro s hs'
    obtain rfl := List.mem_singleton.1 hs'
    exact ⟨⟨hx, hy⟩, within_wide hs hwide hf.mergeX, hy⟩
  | cons glyph rest ih =>
    -- A wire ends before the symbol, and the next one begins after it.
    obtain ⟨hbefore, hafter⟩ := within_ends hs hwide (hglyphs glyph List.mem_cons_self).1
    intro s hs'
    rcases List.mem_cons.1 hs' with rfl | hs'
    · exact ⟨⟨hx, hy⟩, hbefore, hy⟩
    · exact ih hafter (fun g hg => hglyphs g (List.mem_cons_of_mem _ hg)) s hs'

theorem fits_branchLine (hf : f.Along width contacts) {branch : Branch}
    (hbranch : branch.length ≤ contacts) (hy : Within tall y) (parallel : Bool) :
    (f.branchLine parallel branch y).Fits width (width + f.halfSymbol) tall :=
  ⟨hy, fits_glyphs hf hbranch hy,
    fits_wires hs hwide hf hy (within_wide hs hwide hf.left) (fits_glyphs hf hbranch hy)⟩

theorem fits_connectors (hf : f.Along width contacts) {lines : List (BranchLine Float32)}
    (hlines : ∀ l ∈ lines, Within tall l.y) {coil : Glyph Float32} {middle : Float32}
    (hcoil : Within width coil.position.x) (hmiddle : Within tall middle) :
    ∀ s ∈ f.connectors lines coil middle, s.Fits (width + f.halfSymbol) tall := by
  obtain ⟨hbefore, hafter⟩ := within_ends hs hwide hcoil
  have merge := within_wide hs hwide hf.mergeX
  have split := within_wide hs hwide hf.splitX
  intro s hs'
  unfold connectors at hs'
  rw [List.mem_append, List.mem_append, List.mem_singleton] at hs'
  rcases hs' with (hs' | hs') | rfl
  · -- Junctions go from the first branch to the last one.
    match lines with
    | [] | [_] => cases hs'
    | first :: second :: rest =>
      have hfirst := hlines first List.mem_cons_self
      have hlast := hlines _
        (List.mem_cons_of_mem first (List.getLast_mem (List.cons_ne_nil second rest)))
      rcases List.mem_cons.1 hs' with rfl | hs'
      · exact ⟨⟨split, hfirst⟩, split, hlast⟩
      · obtain rfl := List.mem_singleton.1 hs'
        exact ⟨⟨merge, hfirst⟩, merge, hlast⟩
  · split_ifs at hs'
    · cases hs'
    · obtain rfl := List.mem_singleton.1 hs'
      exact ⟨⟨merge, hmiddle⟩, hbefore, hmiddle⟩
  · exact ⟨⟨hafter, hmiddle⟩, within_wide hs hwide hf.right, hmiddle⟩

/-- A rung is within the width of the page, its wires within half a symbol more, and all of it
within a leeway of the height that it ends above. -/
theorem fits_place (hf : f.Along width contacts) {rung : Rung}
    (hrung : ∀ branch ∈ rung.branches, branch.length ≤ contacts) {height top : Float32}
    (hlevels : f.Levels top height rung.branches.length)
    (htall : (height + leeway).isFinite = true) :
    (f.place rung top).Fits width (width + f.halfSymbol) (height + leeway) := by
  have hle := le_value_add_leeway htall
  have middle := hlevels.middle.trans hle
  have lines : ∀ l ∈ (f.place rung top).lines,
      l.Fits width (width + f.halfSymbol) (height + leeway) := by
    intro l hl
    obtain ⟨index, hindex, rfl⟩ := List.mem_mapIdx.1 hl
    obtain ⟨y, hrounds, hy⟩ := hlevels.branch index hindex
    have level := Within.of_rounds hrounds (rounds_add_leeway htall) htall hy
    exact fits_branchLine hs hwide hf (hrung _ (List.getElem_mem hindex)) level _
  exact {
    top := hlevels.start.trans hle
    height := hlevels.height.trans hle
    coil := ⟨hf.coilX, middle⟩
    lines
    connectors := fits_connectors hs hwide hf (fun l hl => (lines l hl).level) hf.coilX middle }

end Wires
end Layout.Frame

structure Diagram.Fits (wide tall : Float32) (d : Diagram Float32) : Prop where
  width : Within wide d.width
  height : Within tall d.height
  left : Within wide d.left
  right : Within wide d.right
  rungs : ∀ r ∈ d.rungs, r.Fits d.width wide tall

namespace Diagram

variable {s : LayoutSettings Float32} {rungs : List Rung}

/-- The rungs go down from the margin to the end of the page. -/
theorem exists_levels (hs : s.Sound) (h : (ofRungs s rungs).height.isFinite = true) :
    0 ≤ value (ofRungs s rungs).height ∧
      ∀ placed ∈ (ofRungs s rungs).rungs, ∃ rung ∈ rungs, ∃ y,
        placed = (Layout.pageFrame s rungs).place rung y ∧
          (Layout.pageFrame s rungs).Levels y (ofRungs s rungs).height rung.branches.length := by
  rw [Layout.ofRungs_rungs]
  rw [Layout.ofRungs_height] at h ⊢
  obtain ⟨hdown, below⟩ :=
    Layout.Frame.placeAll_descends (f := Layout.pageFrame s rungs) hs hs.padding
      (isFinite_of_add h).1
  have hend := le_value_add_left h hs.padding
  refine ⟨hs.padding.trans (hdown.trans hend), fun placed hplaced => ?_⟩
  obtain ⟨rung, hrung, y, rfl, levels⟩ := below placed hplaced
  exact ⟨rung, hrung, y, rfl, levels.trans hend⟩

/-- A page with room for half a symbol in its width and a leeway in its height keeps everything
within that room. -/
theorem fits_ofRungs (hs : s.Sound)
    (hwide : ((ofRungs s rungs).width + Scalar.half s.symbolWidth).isFinite = true)
    (htall : ((ofRungs s rungs).height + Layout.leeway).isFinite = true) :
    (ofRungs s rungs).Fits ((ofRungs s rungs).width + Scalar.half s.symbolWidth)
      ((ofRungs s rungs).height + Layout.leeway) := by
  obtain ⟨hwidth, -⟩ := isFinite_of_add hwide
  obtain ⟨hheight, -⟩ := isFinite_of_add htall
  have along := Layout.along_pageFrame hs hwidth
  obtain ⟨hpositive, hlevels⟩ := exists_levels hs hheight
  have wide {x : Float32} (hx : Within (ofRungs s rungs).width x) :
      Within ((ofRungs s rungs).width + Scalar.half s.symbolWidth) x :=
    Layout.Frame.within_wide (f := Layout.pageFrame s rungs) hs hwide hx
  have rungs_fit : ∀ r ∈ (ofRungs s rungs).rungs, r.Fits (ofRungs s rungs).width
      ((ofRungs s rungs).width + Scalar.half s.symbolWidth)
      ((ofRungs s rungs).height + Layout.leeway) := by
    intro placed hplaced
    obtain ⟨rung, hrung, y, rfl, levels⟩ := hlevels placed hplaced
    exact Layout.Frame.fits_place (f := Layout.pageFrame s rungs) hs hwide along
      (fun branch hbranch => Layout.length_le_longestBranch hrung hbranch) levels htall
  exact {
    width := wide (.of_nonneg hwidth along.left.nonneg)
    height := (Within.of_nonneg hheight hpositive).trans (Layout.le_value_add_leeway htall)
    left := wide along.left
    right := wide along.right
    rungs := rungs_fit }

end Diagram

/-! ## The numbers of a record -/

section Coordinates

variable {width wide tall : Float32}

theorem Point.Fits.isFinite {p : Point Float32} (h : p.Fits wide tall) :
    ∀ x ∈ p.coordinates, x.isFinite = true := by
  simp only [coordinates, List.forall_mem_cons]
  exact ⟨h.1.1, h.2.1, List.forall_mem_nil _⟩

theorem Segment.Fits.isFinite {s : Segment Float32} (h : s.Fits wide tall) :
    ∀ x ∈ s.coordinates, x.isFinite = true :=
  List.forall_mem_append.2 ⟨h.1.isFinite, h.2.isFinite⟩

theorem BranchLine.Fits.isFinite {l : BranchLine Float32} (h : l.Fits width wide tall) :
    ∀ x ∈ l.coordinates, x.isFinite = true := by
  refine List.forall_mem_cons.2 ⟨h.level.1, List.forall_mem_append.2 ⟨?_, ?_⟩⟩
  · exact List.forall_mem_flatMap.2 fun g hg => (h.glyphs g hg).isFinite
  · exact List.forall_mem_flatMap.2 fun s hs => (h.wires s hs).isFinite

theorem RungLayout.Fits.isFinite {r : RungLayout Float32} (h : r.Fits width wide tall) :
    ∀ x ∈ r.coordinates, x.isFinite = true := by
  simp only [coordinates, List.forall_mem_append, List.forall_mem_cons]
  refine ⟨⟨⟨h.top.1, h.height.1, List.forall_mem_nil _⟩, h.coil.isFinite⟩, ?_, ?_⟩
  · exact List.forall_mem_flatMap.2 fun l hl => (h.lines l hl).isFinite
  · exact List.forall_mem_flatMap.2 fun s hs => (h.connectors s hs).isFinite

theorem Diagram.Fits.isFinite {d : Diagram Float32} (h : d.Fits wide tall) :
    ∀ x ∈ d.coordinates, x.isFinite = true := by
  simp only [coordinates, List.forall_mem_append, List.forall_mem_cons]
  refine ⟨⟨⟨h.width.1, h.height.1, List.forall_mem_nil _⟩, h.left.1, h.right.1,
    List.forall_mem_nil _⟩, ?_⟩
  exact List.forall_mem_flatMap.2 fun r hr => (h.rungs r hr).isFinite

end Coordinates

/-! ## Sizes that leave room, and sizes that do not -/

namespace Rounding

/-- A number is finite, and at most so many times a power of two. -/
def AtMost (m k : ℕ) (a : Float32) : Prop := a.isFinite = true ∧ |value a| ≤ m * 2 ^ k

namespace AtMost

variable {a b : Float32} {m n k l : ℕ}

/-- What is at most a number of 24 digits is still at most that when it is rounded. -/
theorem of_rounds {x : ℚ} (h : Rounds a x) (hx : |x| ≤ m * 2 ^ k) (hm : m < 2 ^ 24)
    (hk : k ≤ 103) : AtMost m k a := by
  have hdigits : Rounding.round ((m : ℚ) * 2 ^ k) = m * 2 ^ k := by
    have := round_of_digits (e := k) hm (by omega)
    rwa [zpow_natCast] at this
  have hround : |Rounding.round x| ≤ m * 2 ^ k := by
    rw [abs_round, ← hdigits]
    exact round_mono hx
  have hlt : (m : ℚ) * 2 ^ k < 2 ^ 128 := by
    have : m * 2 ^ k < 2 ^ 128 :=
      calc m * 2 ^ k < 2 ^ 24 * 2 ^ k := Nat.mul_lt_mul_of_pos_right hm (by positivity)
        _ ≤ 2 ^ 24 * 2 ^ 103 := Nat.mul_le_mul_left _ (Nat.pow_le_pow_right (by norm_num) hk)
        _ ≤ 2 ^ 128 := by norm_num
    exact_mod_cast this
  obtain ⟨hfinite, hvalue⟩ := h.finite (hround.trans_lt hlt)
  exact ⟨hfinite, hvalue ▸ hround⟩

theorem mono (h : AtMost m k a) (hle : m * 2 ^ k ≤ n * 2 ^ l) : AtMost n l a :=
  ⟨h.1, h.2.trans (by exact_mod_cast hle)⟩

theorem add (ha : AtMost m k a) (hb : AtMost n k b) (hmn : m + n < 2 ^ 24) (hk : k ≤ 103) :
    AtMost (m + n) k (a + b) := by
  refine of_rounds (rounds_add ha.1 hb.1) ?_ hmn hk
  rw [Nat.cast_add, add_mul]
  exact (abs_add_le _ _).trans (add_le_add ha.2 hb.2)

theorem mul (ha : AtMost m k a) (hb : AtMost n l b) (hmn : m * n < 2 ^ 24) (hkl : k + l ≤ 103) :
    AtMost (m * n) (k + l) (a * b) := by
  refine of_rounds (rounds_mul ha.1 hb.1) ?_ hmn hkl
  rw [abs_mul, Nat.cast_mul, pow_add, mul_mul_mul_comm]
  exact mul_le_mul ha.2 hb.2 (abs_nonneg _) (by positivity)

theorem ofNat (h : n ≤ m) (hm : m < 2 ^ 24) : AtMost m 0 (Float32.ofNat n) := by
  refine of_rounds (rounds_ofNat n) ?_ hm (by norm_num)
  rw [Nat.abs_cast, pow_zero, mul_one]
  exact_mod_cast h

theorem half (ha : AtMost m k a) (hm : m < 2 ^ 24) (hk : k ≤ 103) :
    AtMost m k (Scalar.half a) := by
  refine of_rounds (rounds_half ha.1) ?_ hm hk
  rw [abs_div, abs_two]
  exact (half_le_self (abs_nonneg _)).trans ha.2

theorem larger (ha : AtMost m k a) (hb : AtMost m k b) : AtMost m k (Scalar.larger a b) := by
  have hlarger : Scalar.larger a b = if b < a || b.isNaN then a else b := rfl
  rw [hlarger]
  split
  · exact ha
  · exact hb

end AtMost

end Rounding

/-- Sizes and counts that are far from the end of the range: up to a million rungs of up to a
million branches of up to a million contacts, and sizes of up to a million million million. -/
structure LayoutSettings.Moderate (s : LayoutSettings Float32) (rungs : List Rung) : Prop where
  size : ∀ f, value (s.get f) ≤ 2 ^ 60
  contacts : Layout.longestBranch rungs ≤ 2 ^ 20
  branches : ∀ rung ∈ rungs, rung.branches.length ≤ 2 ^ 20
  rungs : rungs.length ≤ 2 ^ 20

namespace Layout

variable {s : LayoutSettings Float32} {rungs : List Rung}

theorem atMost_size (hs : s.Sound) (h : s.Moderate rungs) (f : LayoutField) :
    AtMost 1 60 (s.get f) := by
  have hnonneg : 0 ≤ value (s.get f) := by
    cases f with
    | elementWidth => exact hs.elementWidth.le
    | branchSpacing => exact hs.branchSpacing.le
    | rungSpacing => exact hs.rungSpacing
    | padding => exact hs.padding
    | viewportWidth => exact hs.viewportWidth
    | symbolWidth => exact hs.symbolWidth.le
  refine ⟨hs.finite f, ?_⟩
  rw [abs_of_nonneg hnonneg, Nat.cast_one, one_mul]
  exact h.size f

theorem atMost_pageWidth (hs : s.Sound) (h : s.Moderate rungs) :
    AtMost (2 ^ 21) 60 (pageWidth s rungs) := by
  have two : AtMost 2 0 (Float32.ofNat 2) := .ofNat le_rfl (by norm_num)
  have extra : AtMost 2 0 (Scalar.ratio 3 2) := by
    refine .of_rounds (rounds_ratio (by norm_num) (by norm_num) (by norm_num)) ?_ (by norm_num)
      (by norm_num)
    norm_num
  have slots : AtMost (2 ^ 20 + 2) 0 (slots rungs) :=
    (AtMost.ofNat h.contacts (by norm_num)).add extra (by norm_num) (by norm_num)
  have margins : AtMost (2 * 1) (0 + 60) (margins s) :=
    two.mul (atMost_size hs h .padding) (by norm_num) (by norm_num)
  have room : AtMost (1 * (2 ^ 20 + 2)) (60 + 0) (s.elementWidth * Layout.slots rungs) :=
    (atMost_size hs h .elementWidth).mul slots (by norm_num) (by norm_num)
  have content := margins.add room (by norm_num) (by norm_num)
  exact ((atMost_size hs h .viewportWidth).mono (by norm_num)).larger (content.mono (by norm_num))

namespace Frame

variable {f : Frame Float32}

theorem atMost_rungHeight (hs : f.settings.Sound) (h : f.settings.Moderate rungs) {count : ℕ}
    (hcount : count ≤ 2 ^ 20) : AtMost 1 81 (f.rungHeight count) := by
  have branches : AtMost (2 ^ 20 * 1) (0 + 60)
      (Float32.ofNat (max count 1) * f.settings.branchSpacing) :=
    (AtMost.ofNat (by omega) (by norm_num)).mul (atMost_size hs h .branchSpacing) (by norm_num)
      (by norm_num)
  have height := branches.add (atMost_size hs h .rungSpacing) (by norm_num) (by norm_num)
  exact height.mono (by norm_num)

/-- Each rung adds at most one unit to where the rungs end. -/
theorem atMost_placeAll (hheight : ∀ rung ∈ rungs, AtMost 1 81 (f.rungHeight rung.branches.length))
    {m : ℕ} {top : Float32} (htop : AtMost m 81 top) (hm : m + rungs.length < 2 ^ 24) :
    AtMost (m + rungs.length) 81 (f.placeAll top rungs).2 := by
  induction rungs generalizing m top with
  | nil => exact htop
  | cons rung rest ih =>
    rw [List.length_cons] at hm
    have hnext : AtMost (m + 1) 81 (top + f.rungHeight rung.branches.length) :=
      htop.add (hheight rung List.mem_cons_self) (by omega) (by norm_num)
    have hrest := ih (fun r hr => hheight r (List.mem_cons_of_mem _ hr)) hnext (by omega)
    rw [Nat.add_right_comm] at hrest
    exact hrest

end Frame
end Layout

namespace Diagram

variable {s : LayoutSettings Float32} {rungs : List Rung}

/-- Moderate sizes and counts leave the room that a page needs. -/
theorem room_of_moderate (hs : s.Sound) (h : s.Moderate rungs) :
    ((ofRungs s rungs).width + Scalar.half s.symbolWidth).isFinite = true ∧
    ((ofRungs s rungs).height + Layout.leeway + Scalar.half s.symbolWidth).isFinite = true := by
  have symbol : AtMost 1 60 (Scalar.half s.symbolWidth) :=
    (Layout.atMost_size hs h .symbolWidth).half (by norm_num) (by norm_num)
  have padding : AtMost 1 81 s.padding := (Layout.atMost_size hs h .padding).mono (by norm_num)
  have leeway : AtMost (2 ^ 20) 86 Layout.leeway := by
    refine ⟨Layout.value_leeway.1, ?_⟩
    rw [Layout.value_leeway.2]
    norm_num
  have hrungs := h.rungs
  have bottom := Layout.Frame.atMost_placeAll (f := Layout.pageFrame s rungs)
    (fun rung hrung => Layout.Frame.atMost_rungHeight hs h (h.branches rung hrung)) padding
    (by omega)
  have height : AtMost (2 ^ 20 + 2) 81 (ofRungs s rungs).height :=
    (bottom.add padding (by omega) (by norm_num)).mono (Nat.mul_le_mul_right _ (by omega))
  constructor
  · have width := Layout.atMost_pageWidth hs h
    exact (width.add symbol (by norm_num) (by norm_num)).1
  · have tall := (height.mono (n := 2 ^ 20) (l := 86) (by norm_num)).add leeway (by norm_num)
      (by norm_num)
    exact (tall.add (symbol.mono (n := 1) (by norm_num)) (by norm_num) (by norm_num)).1

/-- Margins of half the range of floats take up more than the range. -/
theorem width_infinite_of_padding (hs : s.Sound) (hpadding : 2 ^ 127 ≤ value s.padding)
    (rungs : List Rung) : (ofRungs s rungs).width.isFinite = false := by
  rw [← Bool.not_eq_true]
  intro hfinite
  -- A finite width holds the margins, which then are finite as well.
  obtain ⟨hmargins, -⟩ := isFinite_of_add (Layout.content_le_width hs hfinite).1
  have hlt := (Layout.rounds_margins hs).isFinite_iff.1 hmargins
  have hge : Rounding.round (2 ^ 128 : ℚ) ≤ Rounding.round (2 * value s.padding) :=
    round_mono (by linarith)
  rw [round_two_pow] at hge
  exact absurd (hge.trans (le_abs_self _)) (not_le.2 hlt)

end Diagram
end LadderLogic
