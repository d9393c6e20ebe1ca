/-
The text of a number determines the number.

The shortest digits of a float are a decimal among the reals that round to it
(`covers_shortest`).  Those reals form an interval, and the intervals of two floats of a
format have no point in common, not even an end (`eq_of_covers`): neighbours share an end, but
only the one with the even significand takes it in.  So a float can be found again from its
digits, and the digits from the text, by a reader that knows nothing of how the text
was written (`Numeral.read`).  Finite floats with the same text are the same float
(`Numeral.write_injective`).
-/

import Mathlib
import LadderLogic.Number.Numeral

namespace LadderLogic

/-! ## Values -/

/-- The magnitude that a decimal stands for. -/
def Decimal.value (d : Decimal) : ℚ := d.digits * 10 ^ d.exponent

theorem zpow_mul_pow_toNat {b : ℚ} (hb : b ≠ 0) (i : ℤ) : b ^ i * b ^ (-i).toNat = b ^ i.toNat := by
  rw [← zpow_natCast, ← zpow_natCast, ← zpow_add₀ hb]
  congr 1
  omega

/-- Comparing scaled counts is comparing their values. -/
theorem compareScaled_eq (a b : ℕ) (i j : ℤ) :
    compareScaled a i b j = compare ((a : ℚ) * 10 ^ i) ((b : ℚ) * 2 ^ j) := by
  -- both values are brought to whole numbers by the same positive factor
  set factor : ℚ := 10 ^ (-i).toNat * 2 ^ (-j).toNat with hfactor
  have hpos : 0 < factor := by positivity
  have hleft : ((a * Nat.pow 10 i.toNat * Nat.pow 2 (-j).toNat : ℕ) : ℚ) = a * 10 ^ i * factor := by
    rw [hfactor, Nat.pow_eq, Nat.pow_eq]
    push_cast
    rw [← zpow_mul_pow_toNat (by norm_num : (10 : ℚ) ≠ 0) i]
    ring
  have hright : ((b * Nat.pow 2 j.toNat * Nat.pow 10 (-i).toNat : ℕ) : ℚ) = b * 2 ^ j * factor := by
    rw [hfactor, Nat.pow_eq, Nat.pow_eq]
    push_cast
    rw [← zpow_mul_pow_toNat (by norm_num : (2 : ℚ) ≠ 0) j]
    ring
  rw [compareScaled]
  generalize a * Nat.pow 10 i.toNat * Nat.pow 2 (-j).toNat = m at hleft ⊢
  generalize b * Nat.pow 2 j.toNat * Nat.pow 10 (-i).toNat = n at hright ⊢
  rcases lt_trichotomy m n with h | h | h
  · have hvalue : (a : ℚ) * 10 ^ i < b * 2 ^ j := by
      refine lt_of_mul_lt_mul_right ?_ hpos.le
      rw [← hleft, ← hright]
      exact_mod_cast h
    rw [compare_lt_iff_lt.2 h, compare_lt_iff_lt.2 hvalue]
  · have hvalue : (a : ℚ) * 10 ^ i = b * 2 ^ j := by
      refine mul_right_cancel₀ hpos.ne' ?_
      rw [← hleft, ← hright, h]
    rw [compare_eq_iff_eq.2 h, compare_eq_iff_eq.2 hvalue]
  · have hvalue : (b : ℚ) * 2 ^ j < a * 10 ^ i := by
      refine lt_of_mul_lt_mul_right ?_ hpos.le
      rw [← hleft, ← hright]
      exact_mod_cast h
    rw [compare_gt_iff_gt.2 h, compare_gt_iff_gt.2 hvalue]

/-! ## The reals that round to a value -/

namespace Binary

/-- How far the interval of a value reaches below it, in units of its last place. -/
def reachBelow (x : Binary) : ℚ := if x.narrowBelow then 1 / 4 else 1 / 2

/-- The number rounds to the value: it lies between the midpoints to the values below and
above, and on a midpoint only if the significand is even. -/
structure Covers (x : Binary) (v : ℚ) : Prop where
  low : (x.significand - x.reachBelow) * 2 ^ x.exponent ≤ v
  high : v ≤ (x.significand + 1 / 2) * 2 ^ x.exponent
  low_of_odd : x.significand % 2 = 1 → (x.significand - x.reachBelow) * 2 ^ x.exponent < v
  high_of_odd : x.significand % 2 = 1 → v < (x.significand + 1 / 2) * 2 ^ x.exponent

theorem quarter_zpow (e : ℤ) : (2 : ℚ) ^ (e - 2) = 2 ^ e / 4 := by
  rw [zpow_sub₀ (by norm_num)]
  norm_num

theorem covers_of_readsBack {x : Binary} (hx : x.significand ≠ 0) {d : Decimal}
    (h : x.readsBack d = true) : x.Covers d.value := by
  have hlow : (((if x.narrowBelow then 4 * x.significand - 1 else 4 * x.significand - 2 : ℕ)) : ℚ)
      * 2 ^ (x.exponent - 2) = (x.significand - x.reachBelow) * 2 ^ x.exponent := by
    rw [quarter_zpow, reachBelow]
    split
    · rw [Nat.cast_sub (by omega)]
      push_cast
      ring
    · rw [Nat.cast_sub (by omega)]
      push_cast
      ring
  have hhigh : ((4 * x.significand + 2 : ℕ) : ℚ) * 2 ^ (x.exponent - 2) =
      (x.significand + 1 / 2) * 2 ^ x.exponent := by
    rw [quarter_zpow]
    push_cast
    ring
  simp only [readsBack, compareScaled_eq, hlow, hhigh, Bool.and_eq_true, Bool.or_eq_true,
    beq_iff_eq, compare_gt_iff_gt, compare_eq_iff_eq, compare_lt_iff_lt] at h
  obtain ⟨hbelow, habove⟩ := h
  exact {
    low := by
      rcases hbelow with hlt | ⟨-, heq⟩
      · exact hlt.le
      · exact heq.ge
    high := by
      rcases habove with hlt | ⟨-, heq⟩
      · exact hlt.le
      · exact heq.le
    low_of_odd := by
      intro hodd
      rcases hbelow with hlt | ⟨heven, -⟩
      · exact hlt
      · omega
    high_of_odd := by
      intro hodd
      rcases habove with hlt | ⟨heven, -⟩
      · exact hlt
      · omega }

/-! ## The shortest decimal -/

theorem value_exactDecimal (x : Binary) :
    x.exactDecimal.value = x.significand * 2 ^ x.exponent := by
  rw [exactDecimal]
  split
  · next h =>
    rw [Decimal.value, Nat.pow_eq]
    push_cast
    rw [mul_one, ← zpow_natCast, Int.toNat_of_nonneg h]
  · next h =>
    -- fives and twos together make the tens of the exponent
    have hnegative : x.exponent = -((-x.exponent).toNat : ℤ) := by omega
    rw [Decimal.value, Nat.pow_eq]
    push_cast
    generalize (-x.exponent).toNat = n at hnegative
    rw [hnegative, zpow_neg, zpow_neg, zpow_natCast, zpow_natCast,
      show (10 : ℚ) = 5 * 2 by norm_num, mul_pow]
    field_simp

theorem covers_exactDecimal {x : Binary} : x.Covers x.exactDecimal.value := by
  have hunit : (0 : ℚ) < 2 ^ x.exponent := by positivity
  have hreach : 0 < x.reachBelow := by
    rw [reachBelow]
    split <;> norm_num
  have hbelow : (x.significand - x.reachBelow) * 2 ^ x.exponent < x.exactDecimal.value := by
    rw [value_exactDecimal]
    exact mul_lt_mul_of_pos_right (by linarith) hunit
  have habove : x.exactDecimal.value < (x.significand + 1 / 2) * 2 ^ x.exponent := by
    rw [value_exactDecimal]
    exact mul_lt_mul_of_pos_right (by linarith) hunit
  exact ⟨hbelow.le, habove.le, fun _ => hbelow, fun _ => habove⟩

theorem readsBack_of_nearestAt {tie : Tie} {x : Binary} {scale : ℤ} {d : Decimal}
    (h : x.nearestAt tie scale = some d) : x.readsBack d = true := by
  unfold nearestAt at h
  dsimp only at h
  split at h
  · cases h
  · next hbelow _ => cases h; exact hbelow
  · next _ habove => cases h; exact habove
  · next hbelow habove =>
    split at h
    · cases h; exact hbelow
    · cases h; exact habove
    · split at h
      · cases h; exact habove
      · split at h
        · cases h; exact hbelow
        · cases h; exact habove

theorem covers_search {x : Binary} (hx : x.significand ≠ 0) (tie : Tie) (scale : ℤ) (steps : ℕ) :
    x.Covers (x.search tie scale steps).value := by
  induction steps generalizing scale with
  | zero => exact covers_exactDecimal
  | succ steps ih =>
    rw [search]
    cases hfound : x.nearestAt tie scale with
    | none => exact ih (scale - 1)
    | some d => exact covers_of_readsBack hx (readsBack_of_nearestAt hfound)

theorem value_stripZeros (digits : ℕ) (exponent : ℤ) :
    (stripZeros digits exponent).value = digits * 10 ^ exponent := by
  induction digits using Nat.strong_induction_on generalizing exponent with
  | _ digits ih =>
    rw [stripZeros]
    split
    · next h =>
      have hten : (digits : ℚ) = (digits / 10 : ℕ) * 10 := by
        exact_mod_cast (Nat.div_mul_cancel (Nat.dvd_of_mod_eq_zero h.2)).symm
      rw [ih (digits / 10) (by omega), zpow_add_one₀ (by norm_num), hten]
      ring
    · rfl

/-- The shortest decimal rounds to the value. -/
theorem covers_shortest {x : Binary} (hx : x.significand ≠ 0) (tie : Tie) :
    x.Covers (x.shortest tie).value := by
  rw [shortest, value_stripZeros]
  exact covers_search hx tie x.leadingScale 20

/-! ## Values of a format -/

/-- A value as a format has it: no more bits than the format keeps, the leading bit set
unless the exponent is the lowest. -/
structure Canonical (format : BinaryFormat) (x : Binary) : Prop where
  significand_lt : x.significand < 2 * 2 ^ format.fractionBits
  lowest_le : format.lowestExponent ≤ x.exponent
  leading : format.lowestExponent < x.exponent → 2 ^ format.fractionBits ≤ x.significand
  narrow : x.narrowBelow = true ↔
    x.significand = 2 ^ format.fractionBits ∧ format.lowestExponent < x.exponent

variable {format : BinaryFormat} {x y : Binary} {v : ℚ}

theorem Canonical.covered_lt (hx : x.Canonical format) (hv : x.Covers v) :
    v < (2 * 2 ^ format.fractionBits - 1 / 2) * 2 ^ x.exponent := by
  have hunit : (0 : ℚ) < 2 ^ x.exponent := by positivity
  have hle : x.significand + 1 ≤ 2 * 2 ^ format.fractionBits := hx.significand_lt
  have hlast : (x.significand : ℚ) + 1 ≤ 2 * 2 ^ format.fractionBits := by exact_mod_cast hle
  rcases Nat.mod_two_eq_zero_or_one x.significand with heven | hodd
  · -- the largest significand is odd, so that this one is smaller
    have hne : x.significand + 1 ≠ 2 * 2 ^ format.fractionBits := by omega
    have hlt : (x.significand : ℚ) + 1 < 2 * 2 ^ format.fractionBits := by
      exact_mod_cast lt_of_le_of_ne hle hne
    exact lt_of_le_of_lt hv.high (mul_lt_mul_of_pos_right (by linarith) hunit)
  · exact lt_of_lt_of_le (hv.high_of_odd hodd)
      (mul_le_mul_of_nonneg_right (by linarith) hunit.le)

theorem Canonical.le_covered (hy : y.Canonical format) (hv : y.Covers v)
    (hlowest : format.lowestExponent < y.exponent) :
    (2 ^ format.fractionBits - 1 / 4) * 2 ^ y.exponent ≤ v := by
  have hunit : (0 : ℚ) < 2 ^ y.exponent := by positivity
  have hleading := hy.leading hlowest
  refine le_trans (mul_le_mul_of_nonneg_right ?_ hunit.le) hv.low
  rw [reachBelow]
  split
  · next hnarrow =>
    have heq : (y.significand : ℚ) = 2 ^ format.fractionBits := by
      exact_mod_cast (hy.narrow.1 hnarrow).1
    linarith
  · next hwide =>
    have hne : y.significand ≠ 2 ^ format.fractionBits := fun heq =>
      hwide (hy.narrow.2 ⟨heq, hlowest⟩)
    have hlt : 2 ^ format.fractionBits + 1 ≤ y.significand := by omega
    have hcast : (2 : ℚ) ^ format.fractionBits + 1 ≤ y.significand := by exact_mod_cast hlt
    linarith

theorem not_covers_of_exponent_lt (hx : x.Canonical format) (hy : y.Canonical format)
    (hxv : x.Covers v) (hlt : x.exponent < y.exponent) : ¬ y.Covers v := by
  intro hyv
  have hupper := hx.covered_lt hxv
  have hlower := hy.le_covered hyv (lt_of_le_of_lt hx.lowest_le hlt)
  have hstep : (2 : ℚ) ^ x.exponent * 2 ≤ 2 ^ y.exponent := by
    rw [← zpow_add_one₀ (by norm_num)]
    exact zpow_le_zpow_right₀ (by norm_num) (by omega)
  have hone : (1 : ℚ) ≤ 2 ^ format.fractionBits := one_le_pow₀ (by norm_num)
  have hscaled : (2 ^ format.fractionBits - 1 / 4) * ((2 : ℚ) ^ x.exponent * 2) ≤
      (2 ^ format.fractionBits - 1 / 4) * 2 ^ y.exponent :=
    mul_le_mul_of_nonneg_left hstep (by linarith)
  linarith

theorem not_covers_of_significand_lt (hx : x.Canonical format) (hy : y.Canonical format)
    (hxv : x.Covers v) (hexponent : x.exponent = y.exponent)
    (hlt : x.significand < y.significand) : ¬ y.Covers v := by
  intro hyv
  have hunit : (0 : ℚ) < 2 ^ y.exponent := by positivity
  have hwide : y.reachBelow = 1 / 2 := by
    rw [reachBelow, if_neg]
    intro hnarrow
    obtain ⟨hsignificand, hlowest⟩ := hy.narrow.1 hnarrow
    have := hx.leading (by omega)
    omega
  have hhigh := hxv.high
  have hlow := hyv.low
  rw [hexponent] at hhigh
  rw [hwide] at hlow
  have hle : (x.significand : ℚ) + 1 / 2 ≥ y.significand - 1 / 2 :=
    le_of_mul_le_mul_right (hlow.trans hhigh) hunit
  have hnext : y.significand = x.significand + 1 := by
    have : (y.significand : ℚ) ≤ x.significand + 1 := by linarith
    have : y.significand ≤ x.significand + 1 := by exact_mod_cast this
    omega
  have hcast : (y.significand : ℚ) = x.significand + 1 := by exact_mod_cast hnext
  -- of two neighbours one is odd, and does not take in the midpoint
  rcases Nat.mod_two_eq_zero_or_one x.significand with heven | hodd
  · have hstrict := hyv.low_of_odd (by omega)
    rw [hwide, hcast] at hstrict
    linarith
  · have hstrict := hxv.high_of_odd hodd
    rw [hexponent] at hstrict
    rw [hcast] at hlow
    linarith

/-- No number rounds to two values of a format. -/
theorem eq_of_covers (hx : x.Canonical format) (hy : y.Canonical format) (hxv : x.Covers v)
    (hyv : y.Covers v) : x = y := by
  have hexponent : x.exponent = y.exponent := by
    rcases lt_trichotomy x.exponent y.exponent with h | h | h
    · exact absurd hyv (not_covers_of_exponent_lt hx hy hxv h)
    · exact h
    · exact absurd hxv (not_covers_of_exponent_lt hy hx hyv h)
  have hsignificand : x.significand = y.significand := by
    rcases lt_trichotomy x.significand y.significand with h | h | h
    · exact absurd hyv (not_covers_of_significand_lt hx hy hxv hexponent h)
    · exact h
    · exact absurd hxv (not_covers_of_significand_lt hy hx hyv hexponent.symm h)
  have hnarrow : x.narrowBelow = y.narrowBelow := by
    rw [Bool.eq_iff_iff, hx.narrow, hy.narrow, hexponent, hsignificand]
  cases x
  cases y
  simp_all

end Binary

/-! ## Floats -/

namespace FloatValue

theorem canonical_of_ofBits {format : BinaryFormat} {bits : ℕ} {negative : Bool} {x : Binary}
    (h : ofBits format bits = .finite negative x) : x.Canonical format := by
  unfold ofBits at h
  dsimp only at h
  have hpos : 0 < Nat.pow 2 format.fractionBits := Nat.pow_pos (by decide)
  have hfraction := Nat.mod_lt bits hpos
  rw [Nat.pow_eq] at hfraction
  simp only [Nat.pow_eq] at h
  generalize bits % 2 ^ format.fractionBits = fraction at h hfraction
  generalize bits / 2 ^ format.fractionBits % 2 ^ format.exponentBits = field at h
  split at h
  · split at h <;> cases h
  · split at h
    · -- without the leading bit
      cases h
      exact ⟨by simp only; omega, le_refl _, fun hlt => absurd hlt (lt_irrefl _), by
        simp only [Bool.false_eq_true, false_iff]
        rintro ⟨heq, -⟩
        omega⟩
    · next hfield =>
      cases h
      exact ⟨by simp only; omega, by simp only; omega, fun _ => Nat.le_add_right _ _, by
        simp only [Bool.and_eq_true, beq_iff_eq, decide_eq_true_eq]
        omega⟩

/-- The parts of a 32-bit float, written out. -/
theorem ofBits_single (bits : ℕ) :
    ofBits .single bits =
      if bits / 2 ^ 23 % 2 ^ 8 = 255 then
        if bits % 2 ^ 23 = 0 then .infinite (bits / 2 ^ 31 % 2 == 1) else .nan
      else if bits / 2 ^ 23 % 2 ^ 8 = 0 then
        .finite (bits / 2 ^ 31 % 2 == 1) ⟨bits % 2 ^ 23, -149, false⟩
      else
        .finite (bits / 2 ^ 31 % 2 == 1)
          ⟨2 ^ 23 + bits % 2 ^ 23, -149 + ((bits / 2 ^ 23 % 2 ^ 8 - 1 : ℕ) : ℤ),
            bits % 2 ^ 23 == 0 && 1 < bits / 2 ^ 23 % 2 ^ 8⟩ := rfl

theorem fields_of_ofBits {bits : ℕ} {negative : Bool} {x : Binary}
    (h : ofBits .single bits = .finite negative x) :
    (negative = true ↔ bits / 2 ^ 31 % 2 = 1) ∧
    (bits / 2 ^ 23 % 2 ^ 8 = 0 ∧ x.significand = bits % 2 ^ 23 ∨
      bits / 2 ^ 23 % 2 ^ 8 ≠ 0 ∧ x.significand = 2 ^ 23 + bits % 2 ^ 23 ∧
        x.exponent = -149 + ((bits / 2 ^ 23 % 2 ^ 8 - 1 : ℕ) : ℤ)) := by
  rw [ofBits_single] at h
  split at h
  · split at h <;> cases h
  · split at h
    · next hfield =>
      cases h
      exact ⟨beq_iff_eq, Or.inl ⟨hfield, rfl⟩⟩
    · next hfield =>
      cases h
      exact ⟨beq_iff_eq, Or.inr ⟨hfield, rfl, rfl⟩⟩

theorem eq_of_ofBits {a b : ℕ} (ha : a < 2 ^ 32) (hb : b < 2 ^ 32) {negative : Bool}
    {x : Binary} (hxa : ofBits .single a = .finite negative x)
    (hxb : ofBits .single b = .finite negative x) : a = b := by
  obtain ⟨hnegativeA, hfieldsA⟩ := fields_of_ofBits hxa
  obtain ⟨hnegativeB, hfieldsB⟩ := fields_of_ofBits hxb
  have hsign : a / 2 ^ 31 % 2 = 1 ↔ b / 2 ^ 31 % 2 = 1 := hnegativeA.symm.trans hnegativeB
  omega

theorem isFinite_eq_false {x : Float32} (h : x.toBits.toNat / 2 ^ 23 % 2 ^ 8 = 255) :
    x.isFinite = false := by
  have hfield : @Float.Model.UnpackedFloat.unpackExponent .binary32
      x.toModel.toBits.toBitVec = -1#8 := by
    apply BitVec.eq_of_toNat_eq
    have hbits : x.toModel.toBits.toBitVec.toNat = x.toBits.toNat := rfl
    simp only [Float.Model.UnpackedFloat.unpackExponent, BitVec.toNat_cast, BitVec.extractLsb_toNat,
      hbits, Nat.shiftRight_eq_div_pow]
    exact h
  have hunpack : x.isFinite = (Float.Model.UnpackedFloat.unpack .binary32
    x.toModel.toBits.toBitVec).isFinite := rfl
  rw [hunpack, Float.Model.UnpackedFloat.unpack]
  dsimp only
  rw [if_pos hfield]
  split <;> rfl

theorem ofFloat32_of_isFinite {x : Float32} (h : x.isFinite = true) :
    ∃ negative m, ofFloat32 x = .finite negative m := by
  have hfield : x.toBits.toNat / 2 ^ 23 % 2 ^ 8 ≠ 255 := by
    intro hall
    rw [isFinite_eq_false hall] at h
    cases h
  rw [ofFloat32, ofBits_single, if_neg hfield]
  split
  · exact ⟨_, _, rfl⟩
  · exact ⟨_, _, rfl⟩

end FloatValue

/-! ## Reading numerals -/

namespace Numeral

open Nat (ofDigitChars ofDigitChars_append ofDigitChars_replicate_zero)

/-- The exponent that a numeral ends with. -/
def exponentOf : List Char → ℤ
  | 'e' :: '-' :: ds => -(ofDigitChars 10 ds 0 : ℤ)
  | 'e' :: '+' :: ds => ofDigitChars 10 ds 0
  | _ => 0

/-- The digits behind the point, and what follows them. -/
def fractionOf : List Char → List Char × List Char
  | '.' :: rest => (rest.takeWhile Char.isDigit, rest.dropWhile Char.isDigit)
  | rest => ([], rest)

/-- The magnitude that a numeral stands for: digits, a point with more digits, an exponent. -/
def read (text : List Char) : ℚ :=
  let whole := text.takeWhile Char.isDigit
  let (fraction, rest) := fractionOf (text.dropWhile Char.isDigit)
  ofDigitChars 10 (whole ++ fraction) 0 * 10 ^ (exponentOf rest - fraction.length)

/-- A run of marked characters ends where an unmarked one follows. -/
theorem run_append {p : Char → Bool} {run rest : List Char} (hrun : ∀ c ∈ run, p c = true)
    (hrest : ∀ c ∈ rest.head?, p c = false) :
    (run ++ rest).takeWhile p = run ∧ (run ++ rest).dropWhile p = rest := by
  rw [List.takeWhile_append_of_pos hrun, List.dropWhile_append_of_pos hrun]
  cases rest with
  | nil => simp
  | cons c rest =>
    have hc : p c = false := hrest c rfl
    simp [hc]

variable {whole fraction rest : List Char}

theorem read_fraction (hwhole : ∀ c ∈ whole, c.isDigit = true)
    (hfraction : ∀ c ∈ fraction, c.isDigit = true)
    (hrest : ∀ c ∈ rest.head?, c.isDigit = false) :
    read (whole ++ '.' :: (fraction ++ rest)) =
      ofDigitChars 10 (whole ++ fraction) 0 * 10 ^ (exponentOf rest - fraction.length) := by
  have hpoint : ∀ c ∈ ('.' :: (fraction ++ rest)).head?, c.isDigit = false := by
    rintro c ⟨⟩
    rfl
  obtain ⟨hbefore, hafter⟩ := run_append hwhole hpoint
  obtain ⟨hdigits, hend⟩ := run_append hfraction hrest
  simp only [read, hbefore, hafter, fractionOf, hdigits, hend]

theorem read_point (hwhole : ∀ c ∈ whole, c.isDigit = true)
    (hfraction : ∀ c ∈ fraction, c.isDigit = true) :
    read (whole ++ '.' :: fraction) =
      ofDigitChars 10 (whole ++ fraction) 0 * 10 ^ (-(fraction.length : ℤ)) := by
  have hexponent : exponentOf [] = 0 := rfl
  have hend : ∀ c ∈ ([] : List Char).head?, c.isDigit = false := by simp
  have hread := read_fraction hwhole hfraction hend
  rwa [List.append_nil, hexponent, zero_sub] at hread

theorem read_whole (hwhole : ∀ c ∈ whole, c.isDigit = true) :
    read (whole ++ 'e' :: rest) = ofDigitChars 10 whole 0 * 10 ^ exponentOf ('e' :: rest) := by
  have hexponent : ∀ c ∈ ('e' :: rest).head?, c.isDigit = false := by
    rintro c ⟨⟩
    rfl
  obtain ⟨hbefore, hafter⟩ := run_append hwhole hexponent
  simp [read, hbefore, hafter, fractionOf]

theorem isDigit_of_mem_digits {n : ℕ} {c : Char} (h : c ∈ digits n) : c.isDigit = true :=
  Nat.isDigit_of_mem_toDigits (by decide) (by decide) h

theorem ofDigitChars_digits (n : ℕ) : ofDigitChars 10 (digits n) 0 = n :=
  Nat.ofDigitChars_toDigits (by decide) (by decide)

theorem isDigit_of_mem_zeros {n : ℕ} {c : Char} (h : c ∈ zeros n) : c.isDigit = true := by
  rw [(List.mem_replicate.1 h).2]
  rfl

theorem read_plain (d : Decimal) : read (plain ".0" d) = d.value := by
  have hdigits : ∀ c ∈ digits d.digits, c.isDigit = true := fun _ => isDigit_of_mem_digits
  have hzeros : ∀ n, ∀ c ∈ zeros n, c.isDigit = true := fun _ _ => isDigit_of_mem_zeros
  unfold plain
  dsimp only
  split
  · next h =>
    -- a whole number, and a zero behind the point
    have hwhole : ∀ c ∈ digits d.digits ++ zeros d.exponent.toNat, c.isDigit = true :=
      List.forall_mem_append.2 ⟨hdigits, hzeros _⟩
    have hnumber : ofDigitChars 10 (digits d.digits ++ zeros d.exponent.toNat ++ zeros 1) 0 =
        10 * (10 ^ d.exponent.toNat * d.digits) := by
      rw [ofDigitChars_append, ofDigitChars_append, ofDigitChars_digits, zeros, zeros,
        ofDigitChars_replicate_zero, ofDigitChars_replicate_zero, pow_one]
    have hpower : (10 : ℚ) ^ d.exponent = 10 ^ d.exponent.toNat := by
      rw [← zpow_natCast, Int.toNat_of_nonneg h]
    have htext : digits d.digits ++ zeros d.exponent.toNat ++ ".0".toList =
        digits d.digits ++ zeros d.exponent.toNat ++ '.' :: zeros 1 := rfl
    rw [htext, read_point hwhole (hzeros 1), hnumber, Decimal.value, hpower]
    have hunit : (10 : ℚ) ^ (-((zeros 1).length : ℤ)) = 1 / 10 := by
      norm_num [zeros]
    rw [hunit]
    push_cast
    ring
  · next h =>
    split
    · next hpoint =>
      -- the point stands among the digits
      have htake : ∀ c ∈ (digits d.digits).take ((digits d.digits).length + d.exponent).toNat,
          c.isDigit = true := fun c hc => hdigits c (List.mem_of_mem_take hc)
      have hdrop : ∀ c ∈ (digits d.digits).drop ((digits d.digits).length + d.exponent).toNat,
          c.isDigit = true := fun c hc => hdigits c (List.mem_of_mem_drop hc)
      rw [read_point htake hdrop, List.take_append_drop, ofDigitChars_digits, Decimal.value]
      congr 2
      rw [List.length_drop]
      omega
    · next hpoint =>
      -- zeros stand between the point and the digits
      have hfraction : ∀ c ∈ zeros (-((digits d.digits).length + d.exponent)).toNat
          ++ digits d.digits, c.isDigit = true := List.forall_mem_append.2 ⟨hzeros _, hdigits⟩
      have hnumber : ofDigitChars 10 (zeros 1 ++ (zeros (-((digits d.digits).length
          + d.exponent)).toNat ++ digits d.digits)) 0 = d.digits := by
        rw [ofDigitChars_append, ofDigitChars_append, zeros, zeros, ofDigitChars_replicate_zero,
          ofDigitChars_replicate_zero, mul_zero, mul_zero, ofDigitChars_digits]
      have htext : ∀ rest : List Char, '0' :: '.' :: rest = zeros 1 ++ '.' :: rest :=
        fun _ => rfl
      rw [htext, read_point (hzeros 1) hfraction, hnumber, Decimal.value]
      congr 2
      rw [List.length_append, zeros, List.length_replicate]
      omega

theorem exponentOf_signed (e : ℤ) :
    exponentOf ('e' :: (if e < 0 then '-' else '+') :: digits e.natAbs) = e := by
  split
  · rw [exponentOf, ofDigitChars_digits]
    omega
  · rw [exponentOf, ofDigitChars_digits]
    omega

theorem read_scientific (d : Decimal) : read (scientific d) = d.value := by
  have hdigits : ∀ c ∈ digits d.digits, c.isDigit = true := fun _ => isDigit_of_mem_digits
  have hlength : 0 < (digits d.digits).length := Nat.length_toDigits_pos
  have htake : ∀ c ∈ (digits d.digits).take 1, c.isDigit = true :=
    fun c hc => hdigits c (List.mem_of_mem_take hc)
  have hdrop : ∀ c ∈ (digits d.digits).drop 1, c.isDigit = true :=
    fun c hc => hdigits c (List.mem_of_mem_drop hc)
  unfold scientific
  dsimp only
  generalize hexponent : ((digits d.digits).length : ℤ) + d.exponent - 1 = e
  have hsigned := exponentOf_signed e
  split
  · next h =>
    have hone : (digits d.digits).take 1 = digits d.digits := List.take_of_length_le h
    rw [List.append_nil, hone, read_whole hdigits, ofDigitChars_digits, hsigned, Decimal.value]
    congr 2
    omega
  · next h =>
    have htail : ∀ c ∈ ('e' :: (if e < 0 then '-' else '+') :: digits e.natAbs).head?,
        c.isDigit = false := by
      rintro c ⟨⟩
      rfl
    rw [List.append_assoc, List.cons_append, read_fraction htake hdrop htail,
      List.take_append_drop, ofDigitChars_digits, hsigned, Decimal.value]
    congr 2
    rw [List.length_drop]
    omega

/-- A numeral stands for the decimal that was written. -/
theorem read_magnitude (x : Binary) :
    read (magnitude .record x) = if x.significand = 0 then 0 else (x.shortest .toEven).value := by
  rw [magnitude]
  split
  · have hzeros : ∀ c ∈ zeros 1, c.isDigit = true := fun _ => isDigit_of_mem_zeros
    have htext : '0' :: NumeralStyle.record.wholeTail.toList = zeros 1 ++ '.' :: zeros 1 := rfl
    rw [htext, read_point hzeros hzeros, ofDigitChars_append, zeros, ofDigitChars_replicate_zero,
      ofDigitChars_replicate_zero]
    simp
  · dsimp only
    split
    · exact read_plain _
    · exact read_scientific _

/-- The characters that numerals are made of. -/
def isNumeral (c : Char) : Bool := c.isDigit || ['-', '+', '.', 'e'].contains c

theorem isNumeral_of_isDigit {c : Char} (h : c.isDigit = true) : isNumeral c = true := by
  rw [isNumeral, h, Bool.true_or]

theorem isNumeral_of_mem_digits {n : ℕ} {c : Char} (h : c ∈ digits n) : isNumeral c = true :=
  isNumeral_of_isDigit (isDigit_of_mem_digits h)

theorem isNumeral_of_mem_zeros {n : ℕ} {c : Char} (h : c ∈ zeros n) : isNumeral c = true :=
  isNumeral_of_isDigit (isDigit_of_mem_zeros h)

theorem isNumeral_of_mem_tail {c : Char} (h : c ∈ ".0".toList) : isNumeral c = true := by
  rcases List.mem_cons.1 h with rfl | h
  · rfl
  · rw [List.mem_singleton.1 h]
    rfl

theorem isNumeral_of_mem_plain {tail : String} (htail : ∀ c ∈ tail.toList, isNumeral c = true)
    {d : Decimal} {c : Char} (h : c ∈ plain tail d) : isNumeral c = true := by
  have hdigits : ∀ c ∈ digits d.digits, isNumeral c = true := fun _ => isNumeral_of_mem_digits
  unfold plain at h
  dsimp only at h
  split at h
  · simp only [List.mem_append] at h
    rcases h with (h | h) | h
    · exact hdigits c h
    · exact isNumeral_of_mem_zeros h
    · exact htail c h
  · split at h
    · simp only [List.mem_append, List.mem_cons] at h
      rcases h with h | rfl | h
      · exact hdigits c (List.mem_of_mem_take h)
      · rfl
      · exact hdigits c (List.mem_of_mem_drop h)
    · simp only [List.mem_append, List.mem_cons] at h
      rcases h with rfl | rfl | h | h
      · rfl
      · rfl
      · exact isNumeral_of_mem_zeros h
      · exact hdigits c h

theorem isNumeral_of_mem_scientific {d : Decimal} {c : Char} (h : c ∈ scientific d) :
    isNumeral c = true := by
  have hdigits : ∀ c ∈ digits d.digits, isNumeral c = true := fun _ => isNumeral_of_mem_digits
  unfold scientific at h
  simp only [List.mem_append, List.mem_cons] at h
  rcases h with (h | h) | rfl | h | h
  · exact hdigits c (List.mem_of_mem_take h)
  · split at h
    · cases h
    · rcases List.mem_cons.1 h with rfl | h
      · rfl
      · exact hdigits c (List.mem_of_mem_drop h)
  · rfl
  · rw [h]
    split <;> rfl
  · exact isNumeral_of_mem_digits h

theorem isNumeral_of_mem_write {style : NumeralStyle}
    (hstyle : ∀ c ∈ style.wholeTail.toList, isNumeral c = true) {negative : Bool} {x : Binary}
    {c : Char} (h : c ∈ write style (.finite negative x)) : isNumeral c = true := by
  rw [write, List.mem_append] at h
  rcases h with h | h
  · split at h
    · rw [List.mem_singleton.1 h]
      rfl
    · cases h
  · rw [magnitude] at h
    split at h
    · rcases List.mem_cons.1 h with rfl | h
      · rfl
      · exact hstyle c h
    · dsimp only at h
      split at h
      · exact isNumeral_of_mem_plain hstyle h
      · exact isNumeral_of_mem_scientific h

/-- A magnitude begins with a digit. -/
theorem magnitude_head (x : Binary) :
    ∃ c rest, magnitude .record x = c :: rest ∧ c.isDigit = true := by
  obtain ⟨c, ds, hds⟩ := List.exists_cons_of_ne_nil
    (Nat.toDigits_ne_nil : digits (x.shortest .toEven).digits ≠ [])
  have hc : c.isDigit = true := Nat.isDigit_of_mem_toDigits (by decide) (by decide)
    (hds ▸ List.mem_cons_self : c ∈ Nat.toDigits 10 (x.shortest .toEven).digits)
  change digits (x.shortest .toEven).digits = c :: ds at hds
  rw [magnitude]
  split
  · exact ⟨_, _, rfl, rfl⟩
  · dsimp only
    split
    · unfold plain
      dsimp only
      rw [show NumeralStyle.record.tie = .toEven from rfl, hds]
      split
      · exact ⟨c, _, rfl, hc⟩
      · split
        · next hpoint =>
          obtain ⟨k, hk⟩ : ∃ k, (((c :: ds).length : ℤ) + (x.shortest .toEven).exponent).toNat =
              k + 1 := ⟨_, (Nat.succ_pred_eq_of_pos (by omega)).symm⟩
          rw [hk]
          exact ⟨c, _, rfl, hc⟩
        · exact ⟨_, _, rfl, rfl⟩
    · unfold scientific
      dsimp only
      rw [show NumeralStyle.record.tie = .toEven from rfl, hds]
      exact ⟨c, _, rfl, hc⟩

end Numeral

/-! ## From the text back to the float -/

namespace Binary

theorem Canonical.eq_of_zero {format : BinaryFormat} {x : Binary} (hx : x.Canonical format)
    (hzero : x.significand = 0) : x = ⟨0, format.lowestExponent, false⟩ := by
  have hpos : 0 < 2 ^ format.fractionBits := Nat.pow_pos (by decide)
  have hexponent : x.exponent = format.lowestExponent := by
    by_contra hne
    have := hx.leading (lt_of_le_of_ne hx.lowest_le (Ne.symm hne))
    omega
  have hnarrow : x.narrowBelow = false := by
    rw [Bool.eq_false_iff]
    intro hnarrow
    have := (hx.narrow.1 hnarrow).1
    omega
  cases x
  simp_all

theorem Covers.pos {x : Binary} (hx : x.significand ≠ 0) {v : ℚ} (h : x.Covers v) : 0 < v := by
  refine lt_of_lt_of_le (mul_pos ?_ (by positivity)) h.low
  have hone : (1 : ℚ) ≤ x.significand := by exact_mod_cast Nat.one_le_iff_ne_zero.2 hx
  rw [reachBelow]
  split <;> linarith

/-- The text of a magnitude determines it. -/
theorem eq_of_magnitude {format : BinaryFormat} {x y : Binary} (hx : x.Canonical format)
    (hy : y.Canonical format)
    (h : Numeral.magnitude .record x = Numeral.magnitude .record y) : x = y := by
  have hread := congrArg Numeral.read h
  rw [Numeral.read_magnitude, Numeral.read_magnitude] at hread
  by_cases hxzero : x.significand = 0 <;> by_cases hyzero : y.significand = 0
  · rw [hx.eq_of_zero hxzero, hy.eq_of_zero hyzero]
  · rw [if_pos hxzero, if_neg hyzero] at hread
    exact absurd hread ((covers_shortest hyzero .toEven).pos hyzero).ne
  · rw [if_neg hxzero, if_pos hyzero] at hread
    exact absurd hread ((covers_shortest hxzero .toEven).pos hxzero).ne'
  · -- both decimals are the same point, and it is in the intervals of both floats
    rw [if_neg hxzero, if_neg hyzero] at hread
    have hcovers : y.Covers (x.shortest .toEven).value :=
      hread ▸ covers_shortest hyzero .toEven
    exact eq_of_covers hx hy (covers_shortest hxzero .toEven) hcovers

end Binary

namespace Numeral

theorem write_finite_eq {negative negative' : Bool} {x y : Binary}
    (h : write .record (.finite negative x) = write .record (.finite negative' y)) :
    negative = negative' ∧ magnitude .record x = magnitude .record y := by
  obtain ⟨c, rest, hx, hc⟩ := magnitude_head x
  obtain ⟨c', rest', hy, hc'⟩ := magnitude_head y
  rw [write, write, hx, hy] at h
  rw [hx, hy]
  -- a sign is not a digit, so either both texts have one or neither has
  cases negative <;> cases negative'
  · exact ⟨rfl, h⟩
  · obtain ⟨rfl, -⟩ := List.cons.inj h
    cases hc
  · obtain ⟨rfl, -⟩ := List.cons.inj h
    cases hc'
  · exact ⟨rfl, (List.cons.inj h).2⟩

/-- Different finite floats have different texts, zero and negative zero included. -/
theorem write_injective {x y : Float32} (hx : x.isFinite = true) (hy : y.isFinite = true)
    (h : write .record (.ofFloat32 x) = write .record (.ofFloat32 y)) : x = y := by
  obtain ⟨negative, a, ha⟩ := FloatValue.ofFloat32_of_isFinite hx
  obtain ⟨negative', b, hb⟩ := FloatValue.ofFloat32_of_isFinite hy
  rw [ha, hb] at h
  obtain ⟨rfl, hmagnitude⟩ := write_finite_eq h
  have hab : a = b := Binary.eq_of_magnitude (FloatValue.canonical_of_ofBits ha)
    (FloatValue.canonical_of_ofBits hb) hmagnitude
  subst hab
  have hbits : x.toBits = y.toBits := UInt32.toNat_inj.1
    (FloatValue.eq_of_ofBits x.toBits.toNat_lt y.toBits.toNat_lt ha hb)
  obtain ⟨⟨bits, hvalid⟩⟩ := x
  obtain ⟨⟨bits', hvalid'⟩⟩ := y
  obtain rfl : bits = bits' := hbits
  rfl

end Numeral
end LadderLogic
