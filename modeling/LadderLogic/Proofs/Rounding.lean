/-
Rounding to 24 binary digits.

`round` takes a rational to the nearest number with 24 binary digits, none of them below the
place of the least float, and a half to the even neighbour.  It keeps the order of rationals
(`round_mono`) and leaves alone what has few enough digits (`round_of_digits`).  Binary32
arithmetic rounds mantissas by shifting them right and keeping two more bits; what it arrives
at are the digits of the rounded number (`roundWithAccuracy_spec`).
-/

import Mathlib

namespace LadderLogic.Rounding

/-! ## Rounding of rationals -/

/-- The nearest whole number; a half goes to the even neighbour. -/
def nearestEven (q : ℚ) : ℤ :=
  if Int.fract q < 1 / 2 then ⌊q⌋
  else if 1 / 2 < Int.fract q then ⌊q⌋ + 1
  else ⌊q⌋ + ⌊q⌋ % 2

theorem floor_le_nearestEven (q : ℚ) : ⌊q⌋ ≤ nearestEven q := by
  unfold nearestEven
  split_ifs <;> omega

theorem nearestEven_le_floor_add_one (q : ℚ) : nearestEven q ≤ ⌊q⌋ + 1 := by
  unfold nearestEven
  split_ifs <;> omega

theorem nearestEven_mono {p q : ℚ} (h : p ≤ q) : nearestEven p ≤ nearestEven q := by
  have hfloor : ⌊p⌋ ≤ ⌊q⌋ := Int.floor_le_floor h
  rcases hfloor.lt_or_eq with hlt | heq
  · have hp := nearestEven_le_floor_add_one p
    have hq := floor_le_nearestEven q
    omega
  · -- the same whole part, so the fractions are in order
    have hfract : Int.fract p ≤ Int.fract q := by
      rw [Int.fract, Int.fract, heq]
      linarith
    unfold nearestEven
    rw [heq]
    split_ifs <;> first | omega | linarith

theorem nearestEven_le_of_lt {q : ℚ} {n : ℤ} (h : q < n + 1 / 2) : nearestEven q ≤ n := by
  have hq := Int.floor_add_fract q
  have hfract := Int.fract_nonneg q
  unfold nearestEven
  split_ifs with hless hmore
  · have : (⌊q⌋ : ℚ) < n + 1 := by linarith
    have : ⌊q⌋ < n + 1 := by exact_mod_cast this
    omega
  · have : (⌊q⌋ : ℚ) < n := by linarith
    have : ⌊q⌋ < n := by exact_mod_cast this
    omega
  · have : (⌊q⌋ : ℚ) < n := by linarith
    have : ⌊q⌋ < n := by exact_mod_cast this
    omega

theorem nearestEven_intCast (n : ℤ) : nearestEven n = n := by
  rw [nearestEven, Int.fract_intCast, Int.floor_intCast]
  norm_num

theorem abs_nearestEven_sub_le (q : ℚ) : |(nearestEven q : ℚ) - q| ≤ 1 / 2 := by
  have hq := Int.floor_add_fract q
  have hlow := Int.fract_nonneg q
  have hhigh := Int.fract_lt_one q
  rw [abs_le]
  unfold nearestEven
  split_ifs with hless hmore
  · constructor <;> linarith
  · push_cast
    constructor <;> linarith
  · -- Halfway between two numbers, both are as far.
    have hrest : ((⌊q⌋ % 2 : ℤ) : ℚ) = 0 ∨ ((⌊q⌋ % 2 : ℤ) : ℚ) = 1 := by
      exact_mod_cast Int.emod_two_eq_zero_or_one ⌊q⌋
    rw [Int.cast_add]
    rcases hrest with hrest | hrest <;> rw [hrest] <;> constructor <;> linarith

/-- The exponent of the last place that a rational is rounded to. -/
def quantum (x : ℚ) : ℤ := max (Int.log 2 |x| - 23) (-149)

/-- The nearest number that a float without bound on its exponent can have. -/
def round (x : ℚ) : ℚ := nearestEven (x / 2 ^ quantum x) * 2 ^ quantum x

theorem quantum_mono {x y : ℚ} (hx : x ≠ 0) (h : |x| ≤ |y|) : quantum x ≤ quantum y :=
  max_le_max_right _ (Int.sub_le_sub_right (Int.log_mono_right (abs_pos.2 hx) h) 23)

theorem zpow_two_pos (e : ℤ) : (0 : ℚ) < 2 ^ e := zpow_pos two_pos e

theorem nearestEven_neg (q : ℚ) : nearestEven (-q) = -nearestEven q := by
  by_cases hq : Int.fract q = 0
  · obtain ⟨n, rfl⟩ : ∃ n : ℤ, q = n := ⟨⌊q⌋, by rw [← Int.floor_add_fract q, hq]; simp⟩
    rw [← Int.cast_neg, nearestEven_intCast, nearestEven_intCast]
  · have hfract : Int.fract (-q) = 1 - Int.fract q := Int.fract_neg hq
    have hfloor : ⌊-q⌋ = -⌊q⌋ - 1 := by
      have h := Int.floor_add_fract (-q)
      have h' := Int.floor_add_fract q
      have : ((⌊-q⌋ : ℤ) : ℚ) = ((-⌊q⌋ - 1 : ℤ) : ℚ) := by
        push_cast
        linarith
      exact_mod_cast this
    unfold nearestEven
    rw [hfract, hfloor]
    split_ifs <;> first | omega | (exfalso; linarith)

theorem quantum_neg (x : ℚ) : quantum (-x) = quantum x := by rw [quantum, quantum, abs_neg]

theorem round_neg (x : ℚ) : round (-x) = -round x := by
  rw [round, round, quantum_neg, neg_div, nearestEven_neg]
  push_cast
  ring

theorem round_zero : round 0 = 0 := by
  rw [round, zero_div, show (0 : ℚ) = ((0 : ℤ) : ℚ) from rfl, nearestEven_intCast]
  simp

theorem abs_lt_zpow_quantum (x : ℚ) : |x| < 2 ^ 24 * 2 ^ quantum x := by
  have hlog : |x| < 2 ^ (Int.log 2 |x| + 1) := Int.lt_zpow_succ_log_self (by norm_num) _
  have hquantum : Int.log 2 |x| + 1 ≤ 24 + quantum x := by
    have := le_max_left (Int.log 2 |x| - 23) (-149)
    rw [quantum]
    omega
  calc |x| < 2 ^ (Int.log 2 |x| + 1) := hlog
    _ ≤ 2 ^ (24 + quantum x) := zpow_le_zpow_right₀ (by norm_num) hquantum
    _ = 2 ^ 24 * 2 ^ quantum x := by
      rw [zpow_add₀ (by norm_num)]
      norm_cast

theorem zpow_quantum_le {x : ℚ} (hx : x ≠ 0) (h : -149 < quantum x) :
    2 ^ 23 * 2 ^ quantum x ≤ |x| := by
  have hquantum : 23 + quantum x = Int.log 2 |x| := by
    rw [quantum] at h ⊢
    omega
  have hlog : (2 : ℚ) ^ Int.log 2 |x| ≤ |x| := Int.zpow_log_le_self (by norm_num) (abs_pos.2 hx)
  rw [← hquantum, zpow_add₀ (by norm_num)] at hlog
  exact_mod_cast hlog

theorem round_nonneg {x : ℚ} (hx : 0 ≤ x) : 0 ≤ round x := by
  have hpos := zpow_two_pos (quantum x)
  have h := nearestEven_mono (div_nonneg hx hpos.le)
  rw [show (0 : ℚ) = ((0 : ℤ) : ℚ) from rfl, nearestEven_intCast] at h
  exact mul_nonneg (by exact_mod_cast h) hpos.le

theorem round_le_mul {x : ℚ} {n : ℤ} (h : x ≤ n * 2 ^ quantum x) :
    round x ≤ n * 2 ^ quantum x := by
  have hpos := zpow_two_pos (quantum x)
  have hdiv : x / 2 ^ quantum x ≤ n := (div_le_iff₀ hpos).2 h
  have hnearest := nearestEven_mono hdiv
  rw [nearestEven_intCast] at hnearest
  exact mul_le_mul_of_nonneg_right (by exact_mod_cast hnearest) hpos.le

theorem mul_le_round {x : ℚ} {n : ℤ} (h : n * 2 ^ quantum x ≤ x) :
    n * 2 ^ quantum x ≤ round x := by
  have hpos := zpow_two_pos (quantum x)
  have hdiv : (n : ℚ) ≤ x / 2 ^ quantum x := (le_div_iff₀ hpos).2 h
  have hnearest := nearestEven_mono hdiv
  rw [nearestEven_intCast] at hnearest
  exact mul_le_mul_of_nonneg_right (by exact_mod_cast hnearest) hpos.le

theorem round_mono_of_nonneg {x y : ℚ} (hx : 0 ≤ x) (h : x ≤ y) : round x ≤ round y := by
  rcases hx.eq_or_lt with rfl | hpos
  · rw [round_zero]
    exact round_nonneg h
  · have hy : 0 < y := hpos.trans_le h
    have hxx := abs_of_pos hpos
    have hyy := abs_of_pos hy
    have hquantum : quantum x ≤ quantum y := quantum_mono hpos.ne' (by rwa [hxx, hyy])
    rcases hquantum.eq_or_lt with heq | hlt
    · -- the same places
      have hscale := zpow_two_pos (quantum y)
      have hnearest := nearestEven_mono (div_le_div_of_nonneg_right h hscale.le)
      rw [round, round, heq]
      exact mul_le_mul_of_nonneg_right (by exact_mod_cast hnearest) hscale.le
    · -- a power of two lies between the two
      have hlow : -149 < quantum y := lt_of_le_of_lt (le_max_right _ _) hlt
      have hxlt := abs_lt_zpow_quantum x
      have hyge := zpow_quantum_le hy.ne' hlow
      rw [hxx] at hxlt
      rw [hyy] at hyge
      have hbelow : round x ≤ 2 ^ 24 * 2 ^ quantum x := by
        have := round_le_mul (n := 2 ^ 24) (x := x) (by push_cast; exact hxlt.le)
        exact_mod_cast this
      have habove : 2 ^ 23 * 2 ^ quantum y ≤ round y := by
        have := mul_le_round (n := 2 ^ 23) (x := y) (by push_cast; exact hyge)
        exact_mod_cast this
      have hscale : (2 : ℚ) ^ (quantum x + 1) ≤ 2 ^ quantum y :=
        zpow_le_zpow_right₀ (by norm_num) (by omega)
      rw [zpow_add_one₀ (by norm_num)] at hscale
      linarith

theorem round_mono {x y : ℚ} (h : x ≤ y) : round x ≤ round y := by
  rcases le_total 0 x with hx | hx
  · exact round_mono_of_nonneg hx h
  · rcases le_total 0 y with hy | hy
    · have hneg := round_nonneg (neg_nonneg.2 hx)
      rw [round_neg] at hneg
      linarith [round_nonneg hy]
    · have hneg := round_mono_of_nonneg (neg_nonneg.2 hy) (neg_le_neg h)
      rw [round_neg, round_neg] at hneg
      linarith

/-- Numbers that need no more places are left as they are. -/
theorem round_of_digits {m : ℕ} {e : ℤ} (hm : m < 2 ^ 24) (he : -149 ≤ e) :
    round (m * 2 ^ e) = m * 2 ^ e := by
  rcases Nat.eq_zero_or_pos m with rfl | hpos
  · simp [round_zero]
  · have hvalue : (0 : ℚ) < m * 2 ^ e := mul_pos (by exact_mod_cast hpos) (zpow_two_pos e)
    have hlt : (m : ℚ) * 2 ^ e < 2 ^ (24 + e) := by
      rw [zpow_add₀ (by norm_num)]
      exact mul_lt_mul_of_pos_right (by exact_mod_cast hm) (zpow_two_pos e)
    have hlog : Int.log 2 ((m : ℚ) * 2 ^ e) < 24 + e :=
      (Int.lt_zpow_iff_log_lt (by norm_num) hvalue).1 (by exact_mod_cast hlt)
    have hquantum : quantum (m * 2 ^ e) ≤ e := by
      rw [quantum, abs_of_pos hvalue]
      omega
    have hwhole : (m : ℚ) * 2 ^ e / 2 ^ quantum (m * 2 ^ e) =
        ((m * 2 ^ (e - quantum (m * 2 ^ e)).toNat : ℤ) : ℚ) := by
      have hexponent : ((e - quantum (m * 2 ^ e)).toNat : ℤ) = e - quantum (m * 2 ^ e) := by omega
      push_cast
      rw [← zpow_natCast, hexponent, zpow_sub₀ (by norm_num)]
      ring
    rw [round, hwhole, nearestEven_intCast, ← hwhole, div_mul_cancel₀ _ (zpow_two_pos _).ne']

theorem round_two_pow (k : ℕ) : round (2 ^ k : ℚ) = 2 ^ k := by
  have h := round_of_digits (m := 1) (e := k) (by norm_num) (by omega)
  rwa [Nat.cast_one, one_mul, zpow_natCast] at h

/-- Rounding changes a number by at most half of its last place. -/
theorem abs_round_sub_le (x : ℚ) : |round x - x| ≤ 1 / 2 * 2 ^ quantum x := by
  have hpos := zpow_two_pos (quantum x)
  have hscaled : round x - x =
      (nearestEven (x / 2 ^ quantum x) - x / 2 ^ quantum x) * 2 ^ quantum x := by
    rw [sub_mul, div_mul_cancel₀ x hpos.ne']
    rfl
  rw [hscaled, abs_mul, abs_of_pos hpos]
  exact mul_le_mul_of_nonneg_right (abs_nearestEven_sub_le _) hpos.le

theorem quantum_le_of_lt {x : ℚ} (hx : |x| < 2 ^ 128) : quantum x ≤ 104 := by
  rcases eq_or_ne x 0 with rfl | hne
  · simp [quantum]
  · have hlog : Int.log 2 |x| < 128 := by
      rw [← Int.lt_zpow_iff_log_lt (by norm_num) (abs_pos.2 hne)]
      exact_mod_cast hx
    rw [quantum]
    omega

/-! ## Mantissas with two more bits -/

open Float.Model Float.Model.UnpackedFloat

/-- What an accuracy says about the part of a number below its last place. -/
def Describes : Accuracy → ℚ → Prop
  | .exact, f => f = 0
  | .inexact .lt, f => 0 < f ∧ f < 1 / 2
  | .inexact .eq, f => f = 1 / 2
  | .inexact .gt, f => 1 / 2 < f ∧ f < 1

theorem Describes.nonneg {accuracy : Accuracy} {f : ℚ} (h : Describes accuracy f) : 0 ≤ f := by
  rcases accuracy with _ | (_ | _ | _) <;> simp only [Describes] at h
  · exact h.ge
  · exact h.1.le
  · rw [h]; norm_num
  · linarith

theorem Describes.lt_one {accuracy : Accuracy} {f : ℚ} (h : Describes accuracy f) : f < 1 := by
  rcases accuracy with _ | (_ | _ | _) <;> simp only [Describes] at h <;> linarith

theorem Describes.nearestEven_eq {accuracy : Accuracy} {f : ℚ} (h : Describes accuracy f) (m : ℕ) :
    nearestEven (m + f) = (accuracy.roundToNearestEven m : ℕ) := by
  have hfloor : ⌊(m : ℚ) + f⌋ = m := by
    rw [Int.floor_eq_iff]
    push_cast
    exact ⟨by linarith [h.nonneg], by linarith [h.lt_one]⟩
  have hfract : Int.fract ((m : ℚ) + f) = f := by
    rw [Int.fract, hfloor]
    push_cast
    ring
  rw [nearestEven, hfloor, hfract]
  rcases accuracy with _ | (_ | _ | _) <;> simp only [Describes] at h <;>
    simp only [Accuracy.roundToNearestEven]
  · rw [h, if_pos (by norm_num)]
  · rw [if_pos h.2]
  · rw [h, if_neg (by norm_num), if_neg (by norm_num)]
    push_cast
    rfl
  · rw [if_neg (by linarith), if_pos h.1]
    push_cast
    rfl

/-- A mantissa with its two more bits stands for a number of units. -/
def Stands (em : ExtendedMantissa) (q : ℚ) : Prop := Describes em.accuracy (q - em.mantissa)

theorem Stands.nearestEven_eq {em : ExtendedMantissa} {q : ℚ} (h : Stands em q) :
    nearestEven q = (em.roundedMantissa : ℕ) := by
  have := Describes.nearestEven_eq h em.mantissa
  rwa [add_sub_cancel] at this

theorem stands_ofMantissaAndAccuracy {accuracy : Accuracy} {f : ℚ} (h : Describes accuracy f)
    (m : ℕ) : Stands (.ofMantissaAndAccuracy m accuracy) (m + f) := by
  unfold Stands
  rcases accuracy with _ | (_ | _ | _) <;>
    simpa [ExtendedMantissa.ofMantissaAndAccuracy, ExtendedMantissa.accuracy] using h

/-- The part below the last place, once the last bit has become the next one. -/
theorem describes_shift {m m' : ℕ} {roundBit stickyBit : Bool} {f : ℚ}
    (h : Describes (ExtendedMantissa.accuracy ⟨m, roundBit, stickyBit⟩) f) (bit : Bool) :
    Describes (ExtendedMantissa.accuracy ⟨m', bit, roundBit || stickyBit⟩)
      ((bit.toNat + f) / 2) := by
  cases bit <;> cases roundBit <;> cases stickyBit <;>
    simp only [ExtendedMantissa.accuracy, Describes, Bool.or_false, Bool.or_true, Bool.toNat_false,
      Bool.toNat_true, Nat.cast_zero, Nat.cast_one] at h ⊢
  all_goals first | linarith | exact ⟨by linarith, by linarith⟩

theorem Stands.shiftRightOne {em : ExtendedMantissa} {q : ℚ} (h : Stands em q) :
    Stands em.shiftRightOne (q / 2) := by
  obtain ⟨m, roundBit, stickyBit⟩ := em
  have hm : (m : ℚ) = 2 * (m / 2 : ℕ) + (m % 2 : ℕ) := by exact_mod_cast (Nat.div_add_mod m 2).symm
  have hbit : (m % 2 != 0).toNat = m % 2 := by
    rcases Nat.mod_two_eq_zero_or_one m with hmod | hmod <;> rw [hmod] <;> rfl
  have hshift : Describes (ExtendedMantissa.accuracy ⟨m / 2, m % 2 != 0, roundBit || stickyBit⟩)
      (((m % 2 != 0).toNat + (q - m)) / 2) := describes_shift h _
  have hhalf : (((m % 2 != 0).toNat : ℕ) + (q - m)) / 2 = q / 2 - (m / 2 : ℕ) := by
    rw [hbit]
    linarith
  rw [hhalf] at hshift
  exact hshift

theorem Stands.shiftRight {em : ExtendedMantissa} {q : ℚ} (h : Stands em q) (n : ℕ) :
    Stands (em >>> n) (q / 2 ^ n) := by
  change Stands (n.repeat ExtendedMantissa.shiftRightOne em) _
  induction n with
  | zero => simpa [Nat.repeat] using h
  | succ n ih =>
    rw [Nat.repeat, pow_succ, ← div_div]
    exact ih.shiftRightOne

/-! ## Rounding of mantissas -/

theorem targetExponent_binary32 (t : ℤ) :
    Format.binary32.targetExponent t = max (t - 24) (-149) := rfl

theorem log_natCast_mul {m : ℕ} (hm : m ≠ 0) {f : ℚ} (hf : 0 ≤ f) (hf' : f < 1) (e : ℤ) :
    Int.log 2 ((m + f) * 2 ^ e) = m.log2 + e := by
  have hm' : (1 : ℚ) ≤ m := by exact_mod_cast Nat.one_le_iff_ne_zero.2 hm
  have hpos : 0 < (m + f) * (2 : ℚ) ^ e := mul_pos (by linarith) (zpow_two_pos e)
  have hlow : (2 : ℚ) ^ (m.log2 + e : ℤ) ≤ (m + f) * 2 ^ e := by
    rw [zpow_add₀ (by norm_num), zpow_natCast]
    have hself : ((2 ^ m.log2 : ℕ) : ℚ) ≤ m := by exact_mod_cast Nat.log2_self_le hm
    push_cast at hself
    exact mul_le_mul_of_nonneg_right (by linarith) (zpow_two_pos e).le
  have hhigh : (m + f) * (2 : ℚ) ^ e < 2 ^ (m.log2 + e + 1 : ℤ) := by
    rw [show (m.log2 + e + 1 : ℤ) = ((m.log2 + 1 : ℕ) : ℤ) + e by push_cast; ring,
      zpow_add₀ (by norm_num), zpow_natCast]
    have hself : ((m + 1 : ℕ) : ℚ) ≤ (2 ^ (m.log2 + 1) : ℕ) := by
      exact_mod_cast Nat.lt_log2_self
    push_cast at hself
    exact mul_lt_mul_of_pos_right (by linarith) (zpow_two_pos e)
  apply le_antisymm
  · exact Int.lt_add_one_iff.1 ((Int.lt_zpow_iff_log_lt (by norm_num) hpos).1 hhigh)
  · exact (Int.zpow_le_iff_le_log (by norm_num) hpos).1 hlow

/-- Digits in the form that floats have: 24 of them at most, and fewer only at the least
exponent. -/
structure Digits (m : ℕ) (e : ℤ) : Prop where
  lt : m < 2 ^ 24
  low : -149 ≤ e
  full : 2 ^ 23 ≤ m ∨ e = -149

/-- The number with the given sign and digits. -/
def ofDigits (sign : Sign) (m : ℕ) (e : ℤ) : UnpackedFloat :=
  if h : m = 0 then .zero sign else .finite sign m e (Nat.pos_of_ne_zero h)

/-- Shifting a mantissa of the right length changes nothing. -/
theorem shiftToTargetExponent_of_lt {m : ℕ} {e : ℤ} (hm : m < 2 ^ 24) (he : -149 ≤ e) :
    shiftToTargetExponent .binary32 m e .exact = (⟨m, false, false⟩, e) := by
  have hlog : m.log2 ≤ 23 := by
    rcases Nat.eq_zero_or_pos m with rfl | hpos
    · decide
    · have := (Nat.log2_lt hpos.ne').2 hm
      omega
  have hshift : (Format.binary32.targetExponent (totalExponent m e) - e).toNat = 0 := by
    rw [targetExponent_binary32, totalExponent]
    omega
  simp only [shiftToTargetExponent, shiftToExponent, hshift]
  simp [HShiftRight.hShiftRight, Nat.repeat, ExtendedMantissa.ofMantissaAndAccuracy]

/-- A mantissa that rounding made one digit too long is shifted by one place. -/
theorem shiftToTargetExponent_carry {e : ℤ} (he : -149 ≤ e) :
    shiftToTargetExponent .binary32 (2 ^ 24) e .exact = (⟨2 ^ 23, false, false⟩, e + 1) := by
  have hshift : (Format.binary32.targetExponent (totalExponent (2 ^ 24) e) - e).toNat = 1 := by
    rw [targetExponent_binary32, totalExponent, Nat.log2_two_pow]
    omega
  simp only [shiftToTargetExponent, shiftToExponent, hshift]
  simp [HShiftRight.hShiftRight, Nat.repeat, ExtendedMantissa.ofMantissaAndAccuracy,
    ExtendedMantissa.shiftRightOne]

/-- After the first shift, the mantissa is rounded as the number is. -/
theorem quantum_eq_target {m : ℕ} {e : ℤ} {f : ℚ} (hf : 0 ≤ f) (hf' : f < 1)
    (hpos : 0 < (m : ℚ) + f) (hlong : 23 ≤ m.log2 ∨ e ≤ -149) :
    quantum ((m + f) * 2 ^ e) = Format.binary32.targetExponent (totalExponent m e) := by
  have hx : 0 < (m + f) * (2 : ℚ) ^ e := mul_pos hpos (zpow_two_pos e)
  rw [quantum, abs_of_pos hx, targetExponent_binary32, totalExponent]
  rcases Nat.eq_zero_or_pos m with rfl | hm
  · -- less than one unit: both are the least exponent
    have hlt : ((0 : ℕ) + f) * (2 : ℚ) ^ e < 2 ^ e := by
      simpa using mul_lt_mul_of_pos_right hf' (zpow_two_pos e)
    have hlog : Int.log 2 (((0 : ℕ) + f) * (2 : ℚ) ^ e) < e :=
      (Int.lt_zpow_iff_log_lt (by norm_num) hx).1 hlt
    have he : e ≤ -149 := by
      rcases hlong with h | h
      · simp at h
      · exact h
    simp only [Nat.log2_zero] at *
    omega
  · rw [log_natCast_mul hm.ne' hf hf']
    omega

/-- A rounded number has 24 digits, or one more if they are all carried over, and fewer only at
the least exponent. -/
theorem digits_of_round {x : ℚ} (hx : 0 < x) {r : ℕ} (hround : round x = r * 2 ^ quantum x) :
    r ≤ 2 ^ 24 ∧ (2 ^ 23 ≤ r ∨ quantum x = -149) := by
  have hscale := zpow_two_pos (quantum x)
  have habs := abs_of_pos hx
  constructor
  · have hlt := abs_lt_zpow_quantum x
    rw [habs] at hlt
    have hle := round_le_mul (n := 2 ^ 24) (x := x) (by push_cast; exact hlt.le)
    rw [hround] at hle
    exact_mod_cast le_of_mul_le_mul_right hle hscale
  · have hlow : -149 ≤ quantum x := le_max_right _ _
    rcases hlow.lt_or_eq with hlt | heq
    · have hge := zpow_quantum_le hx.ne' hlt
      rw [habs] at hge
      have hle := mul_le_round (n := 2 ^ 23) (x := x) (by push_cast; exact hge)
      rw [hround] at hle
      exact Or.inl (by exact_mod_cast le_of_mul_le_mul_right hle hscale)
    · exact Or.inr heq.symm

/-- The second shift brings a rounded mantissa into the form that floats have. -/
theorem exists_shiftToTargetExponent {r : ℕ} {k : ℤ} (hr : r ≤ 2 ^ 24) (hlow : -149 ≤ k)
    (hfull : 2 ^ 23 ≤ r ∨ k = -149) :
    ∃ m e, Digits m e ∧ (r : ℚ) * 2 ^ k = m * 2 ^ e ∧
      shiftToTargetExponent .binary32 r k .exact = (⟨m, false, false⟩, e) := by
  rcases hr.lt_or_eq with hlt | rfl
  · exact ⟨r, k, ⟨hlt, hlow, hfull⟩, rfl, shiftToTargetExponent_of_lt hlt hlow⟩
  · refine ⟨2 ^ 23, k + 1, ⟨by norm_num, by omega, Or.inl le_rfl⟩, ?_,
      shiftToTargetExponent_carry hlow⟩
    rw [zpow_add_one₀ (by norm_num)]
    push_cast
    ring

/-- Rounding shifts a mantissa twice: to the place that it is rounded at, and once more if a
carry has made it too long. -/
theorem roundWithAccuracy_spec (sign : Sign) {m : ℕ} {e : ℤ} {accuracy : Accuracy} {f : ℚ}
    (hf : Describes accuracy f) (hpos : 0 < (m : ℚ) + f) (hlong : 23 ≤ m.log2 ∨ e ≤ -149) :
    ∃ m' e', Digits m' e' ∧ round ((m + f) * 2 ^ e) = m' * 2 ^ e' ∧
      roundWithAccuracy .binary32 sign m e accuracy = ofDigits sign m' e' := by
  have hx : 0 < (m + f) * (2 : ℚ) ^ e := mul_pos hpos (zpow_two_pos e)
  have htarget := quantum_eq_target hf.nonneg hf.lt_one hpos hlong
  have hle : e ≤ quantum ((m + f) * 2 ^ e) := by
    rw [htarget, targetExponent_binary32, totalExponent]
    omega
  have hlow : -149 ≤ quantum ((m + f) * 2 ^ e) := le_max_right _ _
  set x := (m + f) * (2 : ℚ) ^ e with hxdef
  set k := quantum x with hk
  -- The mantissa after the first shift stands for the number in units of its last place.
  obtain ⟨em, hem⟩ : ∃ em, em =
    ExtendedMantissa.ofMantissaAndAccuracy m accuracy >>> (k - e).toNat := ⟨_, rfl⟩
  have hstands : Stands em (x / 2 ^ k) := by
    have h := (stands_ofMantissaAndAccuracy hf m).shiftRight (k - e).toNat
    have hscale : ((m : ℚ) + f) / 2 ^ (k - e).toNat = x / 2 ^ k := by
      rw [hxdef, ← zpow_natCast, Int.toNat_of_nonneg (by omega), zpow_sub₀ (by norm_num)]
      field_simp
    rw [hem]
    rwa [hscale] at h
  have hround : round x = em.roundedMantissa * 2 ^ k := by
    rw [round, ← hk, hstands.nearestEven_eq]
    push_cast
    rfl
  have hfirst : shiftToTargetExponent .binary32 m e accuracy = (em, k) := by
    rw [shiftToTargetExponent, ← htarget]
    simp only [shiftToExponent, hem, Prod.mk.injEq, true_and]
    omega
  obtain ⟨hr, hfull⟩ := digits_of_round hx hround
  obtain ⟨m', e', hdigits, hvalue, hsecond⟩ := exists_shiftToTargetExponent hr hlow hfull
  refine ⟨m', e', hdigits, hround.trans hvalue, ?_⟩
  have hunfold : roundWithAccuracy .binary32 sign m e accuracy =
      let second := shiftToTargetExponent .binary32 em.roundedMantissa k .exact
      ofDigits sign second.1.mantissa second.2 := by
    rw [roundWithAccuracy, hfirst]
    rfl
  rw [hunfold, hsecond]

end LadderLogic.Rounding
