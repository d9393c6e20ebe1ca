/-
Binary32 arithmetic as exact arithmetic with one rounding.

Every finite float has a `value`.  Sums, differences, products and quotients of finite floats,
and counts, are the floats of the rounded exact results, or infinite where these are past
the range (`Rounds`).  Since rounding keeps the order, computed numbers are in the order of the
exact ones (`Rounds.mono`), and a number is finite if a larger one is (`Rounds.isFinite_of_le`):
that is all that bounds on computed numbers need.
-/

import Mathlib
import LadderLogic.Proofs.Rounding

namespace LadderLogic.Rounding

open Float.Model Float.Model.UnpackedFloat

/-! ## Floats as digits -/

theorem ofDigits_zero (sign : Sign) (e : ℤ) : ofDigits sign 0 e = .zero sign := dif_pos rfl

theorem ofDigits_pos (sign : Sign) {m : ℕ} (hm : 0 < m) (e : ℤ) :
    ofDigits sign m e = .finite sign m e hm := dif_neg hm.ne'

theorem unpackSign_packComponents {spec : Format} (sign : Sign) (e : BitVec spec.exponentBits)
    (m : BitVec spec.mantissaBitsWithoutImplicit) :
    unpackSign (packComponents spec sign e m) = sign.toBitVec := by
  ext i hi
  obtain rfl : i = 0 := by omega
  simp [unpackSign, packComponents, BitVec.getLsbD_eq_getElem, BitVec.getLsbD_append,
    BitVec.getElem_append]

theorem ofBitVec_toBitVec (sign : Sign) : Sign.ofBitVec sign.toBitVec = sign := by
  cases sign <;> rfl

/-- What the three fields of a float stand for. -/
def ofFields (sign : Sign) (e : BitVec 8) (m : BitVec 23) : UnpackedFloat :=
  if e = -1#8 then if m = 0#23 then .infinity sign else .notANumber
  else if e = 0#8 then ofDigits sign m.toNat (-149)
  else ofDigits sign (2 ^ 23 + m.toNat) (e.toNat - 150)

theorem unpack_eq_ofFields (b : BitVec 32) :
    UnpackedFloat.unpack .binary32 b =
      ofFields (.ofBitVec (@unpackSign .binary32 b)) (@unpackExponent .binary32 b)
        (@unpackMantissa .binary32 b) := by
  -- The leading digit is not stored with the others.
  have hmantissa : ∀ m : BitVec 23, (1#1 ++ m).toNat = 2 ^ 23 + m.toNat := by
    intro m
    rw [BitVec.toNat_append, ← Nat.shiftLeft_add_eq_or_of_lt m.isLt]
    rfl
  have hzero : ∀ m : BitVec 23, m = 0#23 ↔ m.toNat = 0 := fun m => BitVec.toNat_inj.symm
  have hbias : (Format.binary32.exponentBias : ℤ) + (23 : ℕ) = 150 := rfl
  unfold UnpackedFloat.unpack ofFields ofDigits
  simp only [hmantissa, hbias, hzero]
  split_ifs with hinfinite hnan hsubnormal hdigits
  · rfl
  · rfl
  · rfl
  · simp [hsubnormal]
  · omega
  · rfl

theorem unpack_packComponents (sign : Sign) (e : BitVec 8) (m : BitVec 23) :
    UnpackedFloat.unpack .binary32 (packComponents .binary32 sign e m) = ofFields sign e m := by
  rw [unpack_eq_ofFields, unpackSign_packComponents, ofBitVec_toBitVec,
    unpackExponent_packComponents, unpackMantissa_packComponents]

theorem exponentBias_binary32 : (Format.binary32.exponentBias : ℤ) = 127 := rfl

/-- Fewer digits than a float can have are kept at the least exponent. -/
theorem unpack_pack_short {m : ℕ} (hpos : 0 < m) (hshort : m < 2 ^ 23) (sign : Sign) :
    UnpackedFloat.unpack .binary32 (UnpackedFloat.pack .binary32 (.finite sign m (-149) hpos)) =
      ofDigits sign m (-149) := by
  have hlog : ¬ m.log2 + 1 = Format.binary32.mantissaBits := by
    have := (Nat.log2_lt hpos.ne').2 hshort
    have hbits : Format.binary32.mantissaBits = 24 := rfl
    omega
  rw [UnpackedFloat.pack]
  dsimp only
  rw [if_neg (by decide), if_neg hlog, unpack_packComponents, ofFields, if_neg (by decide),
    if_pos rfl, BitVec.toNat_ofNat, Nat.mod_eq_of_lt hshort]

/-- All the digits that a float can have are kept without the first one, which is known. -/
theorem unpack_pack_full {m : ℕ} {e : ℤ} (hfull : 2 ^ 23 ≤ m) (hlt : m < 2 ^ 24)
    (hlow : -149 ≤ e) (he : e ≤ 104) (hpos : 0 < m) (sign : Sign) :
    UnpackedFloat.unpack .binary32 (UnpackedFloat.pack .binary32 (.finite sign m e hpos)) =
      ofDigits sign m e := by
  have hbiased : (e + Format.binary32.exponentBias + (23 : ℕ)).toNat = (e + 150).toNat := by
    rw [exponentBias_binary32]
    omega
  have hrange : ¬ 2 ^ 8 ≤ (e + 150).toNat + 1 := by omega
  have hlog : m.log2 + 1 = Format.binary32.mantissaBits := by
    rw [(Nat.log2_eq_iff hpos.ne').2 ⟨hfull, hlt⟩]
    rfl
  have hfield : (BitVec.ofNat 8 (e + 150).toNat).toNat = (e + 150).toNat := by
    rw [BitVec.toNat_ofNat, Nat.mod_eq_of_lt (by omega)]
  have hmantissa : (BitVec.ofNat 23 m).toNat = m - 2 ^ 23 := by
    rw [BitVec.toNat_ofNat]
    omega
  -- The exponent is neither of the two that are set apart.
  have hinfinite : BitVec.ofNat 8 (e + 150).toNat ≠ -1#8 := by
    intro h
    have hall : (BitVec.ofNat 8 (e + 150).toNat).toNat = 255 := congrArg BitVec.toNat h
    omega
  have hsubnormal : BitVec.ofNat 8 (e + 150).toNat ≠ 0#8 := by
    intro h
    have hnone : (BitVec.ofNat 8 (e + 150).toNat).toNat = 0 := congrArg BitVec.toNat h
    omega
  have hm : 2 ^ 23 + (m - 2 ^ 23) = m := by omega
  have hexponent : ((e + 150).toNat : ℤ) - 150 = e := by omega
  rw [UnpackedFloat.pack]
  simp only [hbiased]
  rw [if_neg hrange, if_pos hlog, unpack_packComponents, ofFields, if_neg hinfinite,
    if_neg hsubnormal, hfield, hmantissa, hm, hexponent]

theorem unpack_pack_ofDigits {m : ℕ} {e : ℤ} (h : Digits m e) (he : e ≤ 104) (sign : Sign) :
    UnpackedFloat.unpack .binary32 (UnpackedFloat.pack .binary32 (ofDigits sign m e)) =
      ofDigits sign m e := by
  obtain ⟨hlt, hlow, hfull⟩ := h
  rcases Nat.eq_zero_or_pos m with rfl | hpos
  · rw [ofDigits_zero]
    cases sign <;> rfl
  · rcases Nat.lt_or_ge m (2 ^ 23) with hshort | hnormal
    · obtain rfl : e = -149 := by omega
      rw [ofDigits_pos sign hpos, unpack_pack_short hpos hshort, ofDigits_pos sign hpos]
    · rw [ofDigits_pos sign hpos, unpack_pack_full hnormal hlt hlow he, ofDigits_pos sign hpos]

theorem unpack_pack_overflow {m : ℕ} {e : ℤ} (h : Digits m e) (he : 104 < e) (sign : Sign) :
    UnpackedFloat.unpack .binary32 (UnpackedFloat.pack .binary32 (ofDigits sign m e)) =
      .infinity sign := by
  have hpos : 0 < m := by have := h.full; omega
  have hrange : 2 ^ 8 ≤ (e + Format.binary32.exponentBias + (23 : ℕ)).toNat + 1 := by
    rw [exponentBias_binary32]
    omega
  rw [ofDigits_pos sign hpos, UnpackedFloat.pack]
  dsimp only
  rw [if_pos hrange]
  cases sign <;> rfl

/-- The digits of a float. -/
theorem digits_of_unpack {b : BitVec 32} {sign : Sign} {m : ℕ} {e : ℤ} {hm : 0 < m}
    (h : UnpackedFloat.unpack .binary32 b = .finite sign m e hm) : Digits m e ∧ e ≤ 104 := by
  rw [unpack_eq_ofFields, ofFields] at h
  have hmantissa : (@unpackMantissa .binary32 b).toNat < 2 ^ 23 := BitVec.isLt _
  have hexponent : (@unpackExponent .binary32 b).toNat < 2 ^ 8 := BitVec.isLt _
  split_ifs at h with hinfinite hnan hsubnormal
  · rw [ofDigits] at h
    split_ifs at h
    cases h
    exact ⟨⟨by omega, le_rfl, Or.inr rfl⟩, by norm_num⟩
  · rw [ofDigits] at h
    split_ifs at h
    cases h
    have hall : (@unpackExponent .binary32 b).toNat ≠ 255 := fun heq =>
      hinfinite (BitVec.eq_of_toNat_eq heq)
    have hnone : (@unpackExponent .binary32 b).toNat ≠ 0 := fun heq =>
      hsubnormal (BitVec.eq_of_toNat_eq heq)
    refine ⟨⟨?_, ?_, ?_⟩, ?_⟩ <;> omega

/-- A magnitude with a sign. -/
def signed : Sign → ℚ → ℚ
  | .negative, y => -y
  | .positive, y => y

theorem round_signed (sign : Sign) (y : ℚ) : round (signed sign y) = signed sign (round y) := by
  cases sign
  · exact round_neg y
  · rfl

theorem abs_signed (sign : Sign) (y : ℚ) : |signed sign y| = |y| := by
  cases sign
  · exact abs_neg y
  · rfl

def toRat : UnpackedFloat → ℚ
  | .finite sign m e _ => signed sign (m * 2 ^ e)
  | _ => 0

theorem toRat_ofDigits (sign : Sign) (m : ℕ) (e : ℤ) :
    toRat (ofDigits sign m e) = signed sign (m * 2 ^ e) := by
  rw [ofDigits]
  split_ifs with hm
  · subst hm
    cases sign <;> simp [toRat, signed]
  · rfl

theorem isFinite_ofDigits (sign : Sign) (m : ℕ) (e : ℤ) : (ofDigits sign m e).isFinite = true := by
  rw [ofDigits]
  split_ifs <;> rfl

/-- The number that a float stands for, zero if it stands for none. -/
def value (x : Float32) : ℚ := toRat x.toModel.unpack

/-- A finite float, by its digits. -/
theorem exists_digits {x : Float32} (hx : x.isFinite = true) :
    ∃ sign m e, Digits m e ∧ e ≤ 104 ∧ x.toModel.unpack = ofDigits sign m e := by
  have hunpack : x.toModel.unpack.isFinite = true := hx
  cases h : x.toModel.unpack with
  | notANumber => rw [h] at hunpack; cases hunpack
  | infinity sign => rw [h] at hunpack; cases hunpack
  | zero sign =>
    exact ⟨sign, 0, -149, ⟨by norm_num, le_rfl, Or.inr rfl⟩, by norm_num,
      (ofDigits_zero sign _).symm⟩
  | finite sign m e hm =>
    obtain ⟨hdigits, he⟩ := digits_of_unpack h
    exact ⟨sign, m, e, hdigits, he, (ofDigits_pos sign hm e).symm⟩

/-- A float is what a number is rounded to, or infinite where that is past the range. -/
structure Rounds (r : Float32) (x : ℚ) : Prop where
  finite : |round x| < 2 ^ 128 → r.isFinite = true ∧ value r = round x
  infinite : 2 ^ 128 ≤ |round x| →
    r.toModel.unpack = .infinity (if x < 0 then .negative else .positive)

theorem Digits.value_le {m : ℕ} {e : ℤ} (h : Digits m e) (he : e ≤ 104) :
    (m : ℚ) * 2 ^ e ≤ 2 ^ 128 - 2 ^ 104 := by
  have hm : (m : ℚ) ≤ 2 ^ 24 - 1 := by
    have : m + 1 ≤ 2 ^ 24 := h.lt
    rw [le_sub_iff_add_le]
    exact_mod_cast this
  calc (m : ℚ) * 2 ^ e ≤ (2 ^ 24 - 1) * 2 ^ e :=
        mul_le_mul_of_nonneg_right hm (zpow_two_pos e).le
    _ ≤ (2 ^ 24 - 1) * 2 ^ (104 : ℤ) :=
      mul_le_mul_of_nonneg_left (zpow_le_zpow_right₀ (by norm_num) he) (by norm_num)
    _ = 2 ^ 128 - 2 ^ 104 := by norm_num

theorem Digits.value_lt {m : ℕ} {e : ℤ} (h : Digits m e) (he : e ≤ 104) :
    (m : ℚ) * 2 ^ e < 2 ^ 128 :=
  (h.value_le he).trans_lt (by norm_num)

theorem Digits.le_value {m : ℕ} {e : ℤ} (h : Digits m e) (he : 104 < e) :
    2 ^ 128 ≤ (m : ℚ) * 2 ^ e := by
  have hm : (2 : ℚ) ^ 23 ≤ m := by
    have : 2 ^ 23 ≤ m := by have := h.full; omega
    exact_mod_cast this
  calc (2 : ℚ) ^ 128 = 2 ^ 23 * 2 ^ (105 : ℤ) := by norm_num
    _ ≤ 2 ^ 23 * 2 ^ e :=
      mul_le_mul_of_nonneg_left (zpow_le_zpow_right₀ (by norm_num) he) (by norm_num)
    _ ≤ m * 2 ^ e := mul_le_mul_of_nonneg_right hm (zpow_two_pos e).le

theorem rounds_pack {sign : Sign} {m : ℕ} {e : ℤ} {y : ℚ} (h : Digits m e) (hy : 0 < y)
    (hround : round y = m * 2 ^ e) : Rounds ⟨.pack (ofDigits sign m e)⟩ (signed sign y) := by
  have habs : |round (signed sign y)| = m * 2 ^ e := by
    rw [round_signed, abs_signed, hround, abs_of_nonneg (by positivity)]
  constructor
  · intro hlt
    have he : e ≤ 104 := by
      by_contra hgt
      have := h.le_value (not_le.1 hgt)
      linarith
    have hunpack : Float32.Model.unpack (.pack (ofDigits sign m e)) = ofDigits sign m e :=
      unpack_pack_ofDigits h he sign
    constructor
    · change (Float32.Model.unpack (.pack (ofDigits sign m e))).isFinite = true
      rw [hunpack, isFinite_ofDigits]
    · change toRat (Float32.Model.unpack (.pack (ofDigits sign m e))) = _
      rw [hunpack, toRat_ofDigits, round_signed, hround]
  · intro hge
    have he : 104 < e := by
      by_contra hle
      have := h.value_lt (not_lt.1 hle)
      linarith
    have hsign : (if signed sign y < 0 then Sign.negative else .positive) = sign := by
      cases sign
      · exact if_pos (neg_neg_of_pos hy)
      · exact if_neg hy.not_gt
    rw [hsign]
    exact unpack_pack_overflow h he sign

theorem rounds_zero (sign : Sign) : Rounds ⟨.pack (.zero sign)⟩ 0 := by
  constructor
  · intro
    rw [round_zero]
    cases sign <;> exact ⟨rfl, rfl⟩
  · intro h
    rw [round_zero] at h
    norm_num at h

/-! ## Operations -/

theorem shiftLeft_mul_zpow (m n : ℕ) (e : ℤ) :
    ((m <<< n : ℕ) : ℚ) * 2 ^ (e - n) = m * 2 ^ e := by
  rw [Nat.shiftLeft_eq, zpow_sub₀ (by norm_num), zpow_natCast]
  push_cast
  field_simp

theorem log2_shiftLeft {m : ℕ} (hm : m ≠ 0) (n : ℕ) : (m <<< n).log2 = m.log2 + n := by
  rw [Nat.shiftLeft_eq]
  have hne : m * 2 ^ n ≠ 0 := Nat.mul_ne_zero hm (Nat.pow_pos (by decide)).ne'
  rw [Nat.log2_eq_iff hne, Nat.add_right_comm, Nat.pow_add, Nat.pow_add]
  exact ⟨Nat.mul_le_mul_right _ (Nat.log2_self_le hm),
    (Nat.mul_lt_mul_right (Nat.pow_pos (by decide))).2 Nat.lt_log2_self⟩

theorem round_spec (sign : Sign) {m : ℕ} (hm : 0 < m) (e : ℤ) :
    ∃ m' e', Digits m' e' ∧ round (m * 2 ^ e) = m' * 2 ^ e' ∧
      UnpackedFloat.round .binary32 sign m e = ofDigits sign m' e' := by
  obtain ⟨n, hn⟩ : ∃ n, n = (e - Format.binary32.targetExponent (totalExponent m e)).toNat :=
    ⟨_, rfl⟩
  have hround : UnpackedFloat.round .binary32 sign m e =
      roundWithAccuracy .binary32 sign (m <<< n) (e - n) .exact := by
    rw [UnpackedFloat.round, hn]
    rfl
  -- A short mantissa is made longer first, so that the shift to the right loses nothing.
  have hlong : 23 ≤ (m <<< n).log2 ∨ e - n ≤ -149 := by
    rw [log2_shiftLeft hm.ne']
    rw [targetExponent_binary32, totalExponent] at hn
    omega
  have hpos : 0 < ((m <<< n : ℕ) : ℚ) + 0 := by
    rw [add_zero, Nat.shiftLeft_eq]
    exact_mod_cast Nat.mul_pos hm (Nat.pow_pos (by decide))
  have hexact : Describes .exact 0 := rfl
  obtain ⟨m', e', hdigits, hvalue, heq⟩ := roundWithAccuracy_spec sign hexact hpos hlong
  rw [add_zero, shiftLeft_mul_zpow] at hvalue
  exact ⟨m', e', hdigits, hvalue, hround.trans heq⟩

theorem rounds_round (sign : Sign) {m : ℕ} (hm : 0 < m) (e : ℤ) :
    Rounds ⟨.pack (UnpackedFloat.round .binary32 sign m e)⟩ (signed sign (m * 2 ^ e)) := by
  obtain ⟨m', e', hdigits, hvalue, heq⟩ := round_spec sign hm e
  rw [heq]
  exact rounds_pack hdigits (mul_pos (by exact_mod_cast hm) (zpow_two_pos e)) hvalue

theorem rounds_normalize (m : ℤ) (e : ℤ) (zeroSign : Sign) :
    Rounds ⟨.pack (UnpackedFloat.normalize .binary32 m e zeroSign)⟩ (m * 2 ^ e) := by
  rcases lt_trichotomy m 0 with hm | rfl | hm
  · have hcast : (m : ℚ) * 2 ^ e = signed .negative (((-m).toNat : ℕ) * 2 ^ e) := by
      have : (((-m).toNat : ℕ) : ℚ) = -m := by
        exact_mod_cast Int.toNat_of_nonneg (by omega : 0 ≤ -m)
      rw [this, signed]
      ring
    rw [UnpackedFloat.normalize, compare_lt_iff_lt.2 hm, hcast]
    exact rounds_round .negative (by omega) e
  · rw [UnpackedFloat.normalize, compare_eq_iff_eq.2 rfl, Int.cast_zero, zero_mul]
    exact rounds_zero zeroSign
  · have hcast : (m : ℚ) * 2 ^ e = signed .positive ((m.toNat : ℕ) * 2 ^ e) := by
      have : ((m.toNat : ℕ) : ℚ) = m := by exact_mod_cast Int.toNat_of_nonneg hm.le
      rw [this, signed]
    rw [UnpackedFloat.normalize, compare_gt_iff_gt.2 hm, hcast]
    exact rounds_round .positive (by omega) e

theorem signed_mul (sign : Sign) (y z : ℚ) : signed sign y * z = signed sign (y * z) := by
  cases sign
  · exact neg_mul y z
  · rfl

theorem cast_apply (sign : Sign) (n : ℕ) : ((sign.apply n : ℤ) : ℚ) = signed sign n := by
  cases sign <;> simp [Sign.apply, signed]

/-- The whole number of units at a lower exponent. -/
theorem apply_shiftLeft (sign : Sign) (m : ℕ) {e k : ℤ} (hk : k ≤ e) :
    ((sign.apply (m <<< (e - k).toNat : ℕ) : ℤ) : ℚ) * 2 ^ k = signed sign (m * 2 ^ e) := by
  have hshift := shiftLeft_mul_zpow m (e - k).toNat e
  have hexponent : e - ((e - k).toNat : ℤ) = k := by omega
  rw [hexponent] at hshift
  rw [cast_apply, signed_mul, hshift]

/-- A float rounds to itself. -/
theorem rounds_finite (sign : Sign) {m : ℕ} {e : ℤ} (hm : 0 < m) (h : Digits m e) :
    Rounds ⟨.pack (.finite sign m e hm)⟩ (signed sign (m * 2 ^ e)) := by
  rw [← ofDigits_pos sign hm]
  exact rounds_pack h (mul_pos (by exact_mod_cast hm) (zpow_two_pos e))
    (round_of_digits h.lt h.low)

theorem signed_zero_mul (sign : Sign) (y : ℚ) : signed sign (((0 : ℕ) : ℚ) * y) = 0 := by
  cases sign <;> simp [signed]

variable {a b : Float32}

theorem rounds_add (ha : a.isFinite = true) (hb : b.isFinite = true) :
    Rounds (a + b) (value a + value b) := by
  obtain ⟨s, m, e, hm, -, hua⟩ := exists_digits ha
  obtain ⟨s', m', e', hm', -, hub⟩ := exists_digits hb
  have hsum : a + b = ⟨.pack (UnpackedFloat.add .binary32 a.toModel.unpack b.toModel.unpack)⟩ := rfl
  rw [hsum, value, value, hua, hub, toRat_ofDigits, toRat_ofDigits]
  -- A zero has no digits to line up, so it is added on its own.
  rcases Nat.eq_zero_or_pos m with rfl | hpos <;> rcases Nat.eq_zero_or_pos m' with rfl | hpos'
  · rw [ofDigits_zero, ofDigits_zero, signed_zero_mul, signed_zero_mul, add_zero, UnpackedFloat.add]
    split <;> exact rounds_zero _
  · rw [ofDigits_zero, signed_zero_mul, zero_add, ofDigits_pos s' hpos']
    exact rounds_finite s' hpos' hm'
  · rw [ofDigits_zero, signed_zero_mul, add_zero, ofDigits_pos s hpos]
    exact rounds_finite s hpos hm
  · -- Both mantissas are counted in units of the lower exponent, where the sum is exact.
    rw [ofDigits_pos s hpos, ofDigits_pos s' hpos', UnpackedFloat.add]
    have h := rounds_normalize (s.apply (m <<< (e - min e e').toNat : ℕ) +
      s'.apply (m' <<< (e' - min e e').toNat : ℕ)) (min e e') .positive
    rw [Int.cast_add, add_mul, apply_shiftLeft s m (min_le_left e e'),
      apply_shiftLeft s' m' (min_le_right e e')] at h
    exact h

theorem signed_neg (sign : Sign) (y : ℚ) : signed (-sign) y = -signed sign y := by
  cases sign
  · exact (neg_neg y).symm
  · rfl

theorem rounds_sub (ha : a.isFinite = true) (hb : b.isFinite = true) :
    Rounds (a - b) (value a - value b) := by
  obtain ⟨s, m, e, hm, -, hua⟩ := exists_digits ha
  obtain ⟨s', m', e', hm', -, hub⟩ := exists_digits hb
  have hdiff :
      a - b = ⟨.pack (UnpackedFloat.sub .binary32 a.toModel.unpack b.toModel.unpack)⟩ := rfl
  rw [hdiff, value, value, hua, hub, toRat_ofDigits, toRat_ofDigits]
  rcases Nat.eq_zero_or_pos m with rfl | hpos <;> rcases Nat.eq_zero_or_pos m' with rfl | hpos'
  · rw [ofDigits_zero, ofDigits_zero, signed_zero_mul, signed_zero_mul, sub_zero, UnpackedFloat.sub]
    split <;> exact rounds_zero _
  · rw [ofDigits_zero, signed_zero_mul, zero_sub, ofDigits_pos s' hpos', ← signed_neg]
    exact rounds_finite (-s') hpos' hm'
  · rw [ofDigits_zero, signed_zero_mul, sub_zero, ofDigits_pos s hpos]
    exact rounds_finite s hpos hm
  · rw [ofDigits_pos s hpos, ofDigits_pos s' hpos', UnpackedFloat.sub]
    have h := rounds_normalize (s.apply (m <<< (e - min e e').toNat : ℕ) -
      s'.apply (m' <<< (e' - min e e').toNat : ℕ)) (min e e') .positive
    rw [Int.cast_sub, sub_mul, apply_shiftLeft s m (min_le_left e e'),
      apply_shiftLeft s' m' (min_le_right e e')] at h
    exact h

theorem signed_mul_signed (s s' : Sign) (y z : ℚ) :
    signed s y * signed s' z = signed (s * s') (y * z) := by
  cases s <;> cases s'
  · exact neg_mul_neg y z
  · exact neg_mul y z
  · exact mul_neg y z
  · rfl

/-- Products of digits are long enough to be rounded. -/
theorem Digits.long_mul {m m' : ℕ} {e e' : ℤ} (h : Digits m e) (h' : Digits m' e') (hm : 0 < m)
    (hm' : 0 < m') : 23 ≤ (m * m').log2 ∨ e + e' ≤ -149 := by
  have hne : m * m' ≠ 0 := (Nat.mul_pos hm hm').ne'
  rcases h.full with hfull | hleast
  · exact Or.inl ((Nat.le_log2 hne).2 (hfull.trans (Nat.le_mul_of_pos_right m hm')))
  · rcases h'.full with hfull' | hleast'
    · exact Or.inl ((Nat.le_log2 hne).2 (hfull'.trans (Nat.le_mul_of_pos_left m' hm)))
    · exact Or.inr (by omega)

theorem rounds_mul (ha : a.isFinite = true) (hb : b.isFinite = true) :
    Rounds (a * b) (value a * value b) := by
  obtain ⟨s, m, e, hm, -, hua⟩ := exists_digits ha
  obtain ⟨s', m', e', hm', -, hub⟩ := exists_digits hb
  have hprod :
      a * b = ⟨.pack (UnpackedFloat.mul .binary32 a.toModel.unpack b.toModel.unpack)⟩ := rfl
  rw [hprod, value, value, hua, hub, toRat_ofDigits, toRat_ofDigits]
  rcases Nat.eq_zero_or_pos m with rfl | hpos <;> rcases Nat.eq_zero_or_pos m' with rfl | hpos'
  · rw [ofDigits_zero, ofDigits_zero, signed_zero_mul, zero_mul, UnpackedFloat.mul]
    exact rounds_zero _
  · rw [ofDigits_zero, signed_zero_mul, zero_mul, ofDigits_pos s' hpos', UnpackedFloat.mul]
    exact rounds_zero _
  · rw [ofDigits_zero, signed_zero_mul, mul_zero, ofDigits_pos s hpos, UnpackedFloat.mul]
    exact rounds_zero _
  · have hproduct : 0 < ((m * m' : ℕ) : ℚ) + 0 := by
      rw [add_zero]
      exact_mod_cast Nat.mul_pos hpos hpos'
    have hexact : Describes .exact 0 := rfl
    obtain ⟨m'', e'', hdigits, hvalue, heq⟩ :=
      roundWithAccuracy_spec (s * s') hexact hproduct (hm.long_mul hm' hpos hpos')
    have hexponents : ((m * m' : ℕ) : ℚ) * 2 ^ (e + e') = m * 2 ^ e * (m' * 2 ^ e') := by
      rw [zpow_add₀ (by norm_num)]
      push_cast
      ring
    rw [add_zero, hexponents] at hvalue
    rw [ofDigits_pos s hpos, ofDigits_pos s' hpos', UnpackedFloat.mul, heq, signed_mul_signed]
    refine rounds_pack hdigits ?_ hvalue
    exact mul_pos (mul_pos (by exact_mod_cast hpos) (zpow_two_pos e))
      (mul_pos (by exact_mod_cast hpos') (zpow_two_pos e'))

theorem describes_accuracyOfFraction {r n : ℕ} (hr : r < n) :
    Describes (accuracyOfFraction r n) (r / n) := by
  have hn : (0 : ℚ) < n := by exact_mod_cast (Nat.zero_le r).trans_lt hr
  rw [accuracyOfFraction]
  split_ifs with hzero
  · subst hzero
    simp [Describes]
  · have hpos : (0 : ℚ) < r := by exact_mod_cast Nat.pos_of_ne_zero hzero
    have hlt : (r : ℚ) < n := by exact_mod_cast hr
    rcases lt_trichotomy (2 * r) n with h | h | h
    · have h' : 2 * (r : ℚ) < n := by exact_mod_cast h
      rw [compare_lt_iff_lt.2 h]
      exact ⟨div_pos hpos hn, by rw [div_lt_iff₀ hn]; linarith⟩
    · have h' : 2 * (r : ℚ) = n := by exact_mod_cast h
      rw [compare_eq_iff_eq.2 h]
      change (r : ℚ) / n = 1 / 2
      rw [div_eq_div_iff hn.ne' (by norm_num)]
      linarith
    · have h' : (n : ℚ) < 2 * r := by exact_mod_cast h
      rw [compare_gt_iff_gt.2 h]
      exact ⟨by rw [lt_div_iff₀ hn]; linarith, (div_lt_one hn).2 hlt⟩

theorem signed_div_signed (s s' : Sign) (y z : ℚ) :
    signed s y / signed s' z = signed (s / s') (y / z) := by
  cases s <;> cases s'
  · exact neg_div_neg_eq y z
  · exact neg_div z y
  · exact div_neg y
  · rfl

/-- A quotient of digits is rounded from its whole part and its remainder. -/
theorem divCore_spec {m m' : ℕ} (hm : 0 < m) (hm' : 0 < m') (e e' : ℤ) :
    ∃ (q : ℕ) (k : ℤ) (accuracy : Accuracy) (f : ℚ),
      divCore .binary32 m e m' e' = (q, k, accuracy) ∧ Describes accuracy f ∧
      (q + f) * 2 ^ k = m * 2 ^ e / (m' * 2 ^ e') ∧ (23 ≤ q.log2 ∨ k ≤ -149) := by
  obtain ⟨k, hk⟩ : ∃ k, k = min (e - e')
    (Format.binary32.targetExponent (totalExponent m e - totalExponent m' e')) := ⟨_, rfl⟩
  obtain ⟨n, hn⟩ : ∃ n, n = (e - e' - k).toNat := ⟨_, rfl⟩
  have hshift : (n : ℤ) = e - e' - k := by omega
  refine ⟨(m <<< n) / m', k, accuracyOfFraction ((m <<< n) % m') m', ((m <<< n) % m' : ℕ) / m',
    ?_, describes_accuracyOfFraction (Nat.mod_lt _ hm'), ?_, ?_⟩
  · rw [divCore, hn, hk]
  · have hmod : ((m <<< n / m' : ℕ) : ℚ) + ((m <<< n % m' : ℕ) : ℚ) / m' = (m <<< n : ℕ) / m' := by
      have hdiv : ((m <<< n : ℕ) : ℚ) = m' * (m <<< n / m' : ℕ) + (m <<< n % m' : ℕ) := by
        exact_mod_cast (Nat.div_add_mod (m <<< n) m').symm
      have hne : (m' : ℚ) ≠ 0 := by exact_mod_cast hm'.ne'
      rw [hdiv]
      field_simp
    rw [hmod, Nat.shiftLeft_eq]
    push_cast
    rw [← zpow_natCast, hshift, zpow_sub₀ (by norm_num), zpow_sub₀ (by norm_num)]
    field_simp
  · rw [targetExponent_binary32, totalExponent, totalExponent] at hk
    by_cases hleast : k ≤ -149
    · exact Or.inr hleast
    · left
      -- enough places were added for 24 digits of the quotient
      have hplaces : 24 + m'.log2 ≤ m.log2 + n := by omega
      have hquotient : 2 ^ 23 * m' ≤ m <<< n := by
        calc 2 ^ 23 * m' ≤ 2 ^ 23 * 2 ^ (m'.log2 + 1) :=
              Nat.mul_le_mul_left _ Nat.lt_log2_self.le
          _ = 2 ^ (24 + m'.log2) := by rw [← Nat.pow_add]; congr 1; omega
          _ ≤ 2 ^ (m <<< n).log2 := by
            rw [log2_shiftLeft hm.ne']
            exact Nat.pow_le_pow_right (by decide) hplaces
          _ ≤ m <<< n := by
            apply Nat.log2_self_le
            rw [Nat.shiftLeft_eq]
            exact (Nat.mul_pos hm (Nat.pow_pos (by decide))).ne'
      have hle : 2 ^ 23 ≤ m <<< n / m' := (Nat.le_div_iff_mul_le hm').2 hquotient
      exact (Nat.le_log2 (by omega)).2 hle

theorem rounds_div (ha : a.isFinite = true) (hb : b.isFinite = true) (hne : value b ≠ 0) :
    Rounds (a / b) (value a / value b) := by
  obtain ⟨s, m, e, hm, -, hua⟩ := exists_digits ha
  obtain ⟨s', m', e', hm', -, hub⟩ := exists_digits hb
  have hquot :
      a / b = ⟨.pack (UnpackedFloat.div .binary32 a.toModel.unpack b.toModel.unpack)⟩ := rfl
  rw [value, hub, toRat_ofDigits] at hne
  rw [hquot, value, value, hua, hub, toRat_ofDigits, toRat_ofDigits]
  have hpos' : 0 < m' := by
    rcases Nat.eq_zero_or_pos m' with rfl | h
    · exact absurd (signed_zero_mul s' _) hne
    · exact h
  rw [ofDigits_pos s' hpos']
  rcases Nat.eq_zero_or_pos m with rfl | hpos
  · rw [ofDigits_zero, signed_zero_mul, zero_div]
    exact rounds_zero _
  · obtain ⟨q, k, accuracy, f, hcore, hf, hvalue, hlong⟩ := divCore_spec hpos hpos' e e'
    have hexact : 0 < (m : ℚ) * 2 ^ e / (m' * 2 ^ e') :=
      div_pos (mul_pos (by exact_mod_cast hpos) (zpow_two_pos e))
        (mul_pos (by exact_mod_cast hpos') (zpow_two_pos e'))
    have hmantissa : 0 < (q : ℚ) + f := by
      rw [← hvalue] at hexact
      exact pos_of_mul_pos_left hexact (zpow_two_pos k).le
    obtain ⟨m'', e'', hdigits, hround, heq⟩ :=
      roundWithAccuracy_spec (s / s') hf hmantissa hlong
    rw [ofDigits_pos s hpos, UnpackedFloat.div, hcore, signed_div_signed]
    simp only [heq]
    rw [hvalue] at hround
    exact rounds_pack hdigits hexact hround

/-! ### Counts -/

theorem value_one : value (Float32.ofBits 0x3F800000) = 1 := by
  have hunpack :
      (Float32.ofBits 0x3F800000).toModel.unpack = ofDigits .positive (2 ^ 23) (-23) := rfl
  rw [value, hunpack, toRat_ofDigits, signed]
  norm_num

/-- Small counts are not changed by rounding. -/
theorem Rounds.eq_count {r : Float32} {n : ℕ} (h : Rounds r n) (hn : n < 2 ^ 23) :
    r.isFinite = true ∧ value r = n := by
  have hround : round (n : ℚ) = n := by
    have h := round_of_digits (e := 0) (hn.trans (by norm_num)) (by norm_num)
    rwa [zpow_zero, mul_one] at h
  have hlt : |round (n : ℚ)| < 2 ^ 128 := by
    rw [hround, Nat.abs_cast]
    exact_mod_cast hn.trans (by norm_num)
  have hfinite := h.finite hlt
  rwa [hround] at hfinite

/-- Small counts are floats, and are multiplied by one. -/
theorem rounds_ofNat_of_lt {n : ℕ} (hn : n < 2 ^ 23) : Rounds (Float32.ofNat n) n := by
  have hscientific : Float32.ofNat n = Float32.ofScientific n false 0 := rfl
  have hcount : Float32.ofNat n = n.toUInt64.toFloat32 * Float32.ofBits 0x3F800000 := by
    rw [hscientific, Float32.ofScientific, dif_pos ⟨hn, by decide⟩]
    rfl
  have hnat : n.toUInt64.toNat = n := by
    rw [UInt64.toNat_ofNat']
    omega
  have hfloat : n.toUInt64.toFloat32 =
      ⟨.pack (UnpackedFloat.normalize .binary32 (n.toUInt64.toNat : ℤ) 0 .positive)⟩ := rfl
  have hrounds : Rounds n.toUInt64.toFloat32 n := by
    have h := rounds_normalize (n : ℤ) 0 .positive
    rw [zpow_zero, mul_one] at h
    rw [hfloat, hnat]
    exact h
  obtain ⟨hfinite, hvalue⟩ := hrounds.eq_count hn
  have hmul := rounds_mul hfinite (by decide : (Float32.ofBits 0x3F800000).isFinite = true)
  rw [hvalue, value_one, mul_one] at hmul
  rw [hcount]
  exact hmul

theorem ofNat_of_ge {n : ℕ} (hn : ¬ n < 2 ^ 23) :
    Float32.ofNat n =
      ⟨.pack (roundWithAccuracy .binary32 .positive (n <<< 24 * 1) (-24) .exact)⟩ := by
  have hscientific : Float32.ofNat n = Float32.ofScientific n false 0 := rfl
  have hmodel : Float32.ofScientific n false 0 =
      ⟨.pack (UnpackedFloat.ofScientific .binary32 n 0)⟩ := by
    rw [Float32.ofScientific, dif_neg (fun h => hn h.1)]
    rfl
  have hpos : n ≠ 0 := by omega
  have hhigh : ¬ (0 : ℤ) > 2 ^ Format.binary32.exponentBits := by decide
  have hlow : ¬ (0 : ℤ) < -((2 ^ Format.binary32.exponentBits : ℤ) + n.log2) := by
    have : (0 : ℤ) < 2 ^ Format.binary32.exponentBits := by decide
    omega
  rw [hscientific, hmodel, UnpackedFloat.ofScientific, dif_neg hpos, if_neg hhigh, if_neg hlow,
    if_pos le_rfl]
  rfl

theorem rounds_ofNat (n : ℕ) : Rounds (Float32.ofNat n) n := by
  by_cases hn : n < 2 ^ 23
  · exact rounds_ofNat_of_lt hn
  · -- A large count is given 24 more places, and rounded with them.
    have hpos : 0 < n := by omega
    have hexact : Describes .exact 0 := rfl
    have hmantissa : 0 < ((n <<< 24 * 1 : ℕ) : ℚ) + 0 := by
      rw [add_zero, mul_one, Nat.shiftLeft_eq]
      exact_mod_cast Nat.mul_pos hpos (Nat.pow_pos (by decide))
    have hlong : 23 ≤ (n <<< 24 * 1).log2 ∨ (-24 : ℤ) ≤ -149 := by
      rw [mul_one, log2_shiftLeft hpos.ne']
      omega
    obtain ⟨m', e', hdigits, hround, heq⟩ := roundWithAccuracy_spec .positive hexact hmantissa hlong
    have hvalue : (((n <<< 24 * 1 : ℕ) : ℚ) + 0) * 2 ^ (-24 : ℤ) = n := by
      have h := shiftLeft_mul_zpow n 24 0
      rw [zpow_zero, mul_one] at h
      rw [add_zero, mul_one]
      exact h
    rw [hvalue] at hround
    rw [ofNat_of_ge hn, heq]
    exact rounds_pack hdigits (by exact_mod_cast hpos) hround

theorem value_ofNat {n : ℕ} (hn : n < 2 ^ 23) :
    (Float32.ofNat n).isFinite = true ∧ value (Float32.ofNat n) = n :=
  (rounds_ofNat n).eq_count hn

/-! ### Order -/

theorem lt_iff_unpack : a < b ↔ a.toModel.unpack.lt b.toModel.unpack = true := by
  change decide (a.toModel < b.toModel) = true ↔ _
  rw [decide_eq_true_iff]
  rfl

theorem Digits.lt_of_exponent_lt {m m' : ℕ} {e e' : ℤ} (h : Digits m e) (h' : Digits m' e')
    (he : e < e') : (m : ℚ) * 2 ^ e < m' * 2 ^ e' := by
  have hm : (m : ℚ) < 2 ^ 24 := by exact_mod_cast h.lt
  have hm' : (2 : ℚ) ^ 23 ≤ m' := by
    have : 2 ^ 23 ≤ m' := by have := h.low; have := h'.full; omega
    exact_mod_cast this
  have hscale : (2 : ℚ) ^ (e + 1) ≤ 2 ^ e' := zpow_le_zpow_right₀ (by norm_num) (by omega)
  calc (m : ℚ) * 2 ^ e < 2 ^ 24 * 2 ^ e := mul_lt_mul_of_pos_right hm (zpow_two_pos e)
    _ = 2 ^ 23 * 2 ^ (e + 1) := by rw [zpow_add_one₀ (by norm_num)]; ring
    _ ≤ m' * 2 ^ e' := mul_le_mul hm' hscale (zpow_two_pos _).le (by positivity)

/-- Digits are in the order of their exponents, then of their mantissas. -/
theorem Digits.compare_eq {m m' : ℕ} {e e' : ℤ} (h : Digits m e) (h' : Digits m' e') :
    (compare e e').then (compare m m') = compare ((m : ℚ) * 2 ^ e) (m' * 2 ^ e') := by
  rcases lt_trichotomy e e' with he | rfl | he
  · rw [compare_lt_iff_lt.2 he, compare_lt_iff_lt.2 (h.lt_of_exponent_lt h' he)]
    rfl
  · have hscale := zpow_two_pos e
    rw [compare_eq_iff_eq.2 rfl]
    rcases lt_trichotomy m m' with hm | rfl | hm
    · have hm' : (m : ℚ) < m' := by exact_mod_cast hm
      rw [compare_lt_iff_lt.2 hm, compare_lt_iff_lt.2 (mul_lt_mul_of_pos_right hm' hscale)]
      rfl
    · rw [compare_eq_iff_eq.2 rfl, compare_eq_iff_eq.2 rfl]
      rfl
    · have hm' : (m' : ℚ) < m := by exact_mod_cast hm
      rw [compare_gt_iff_gt.2 hm, compare_gt_iff_gt.2 (mul_lt_mul_of_pos_right hm' hscale)]
      rfl
  · rw [compare_gt_iff_gt.2 he, compare_gt_iff_gt.2 (h'.lt_of_exponent_lt h he)]
    rfl

theorem lt_iff_value (ha : a.isFinite = true) (hb : b.isFinite = true) :
    a < b ↔ value a < value b := by
  obtain ⟨s, m, e, hm, -, hua⟩ := exists_digits ha
  obtain ⟨s', m', e', hm', -, hub⟩ := exists_digits hb
  rw [lt_iff_unpack, value, value, hua, hub, toRat_ofDigits, toRat_ofDigits]
  have hpositive : ∀ {n : ℕ} (k : ℤ), 0 < n → (0 : ℚ) < n * 2 ^ k := fun k hn =>
    mul_pos (by exact_mod_cast hn) (zpow_two_pos k)
  rcases Nat.eq_zero_or_pos m with rfl | hpos <;> rcases Nat.eq_zero_or_pos m' with rfl | hpos'
  · rw [ofDigits_zero, ofDigits_zero, signed_zero_mul, signed_zero_mul]
    simp [UnpackedFloat.lt, UnpackedFloat.compare]
  · rw [ofDigits_zero, ofDigits_pos s' hpos', signed_zero_mul]
    have := hpositive e' hpos'
    cases s' <;> simp [UnpackedFloat.lt, UnpackedFloat.compare, signed] <;> linarith
  · rw [ofDigits_zero, ofDigits_pos s hpos, signed_zero_mul]
    have := hpositive e hpos
    cases s <;> simp [UnpackedFloat.lt, UnpackedFloat.compare, signed] <;> linarith
  · -- Of numbers of one sign, the digits are compared; otherwise the signs decide.
    rw [ofDigits_pos s hpos, ofDigits_pos s' hpos']
    have := hpositive e hpos
    have := hpositive e' hpos'
    cases s <;> cases s'
    · simp only [UnpackedFloat.lt, UnpackedFloat.compare, signed, hm.compare_eq hm', neg_lt_neg_iff,
        beq_iff_eq, Option.some.injEq, Ordering.swap_eq_lt]
      exact compare_gt_iff_gt
    · simp [UnpackedFloat.lt, UnpackedFloat.compare, signed]
      linarith
    · simp [UnpackedFloat.lt, UnpackedFloat.compare, signed]
      linarith
    · simp only [UnpackedFloat.lt, UnpackedFloat.compare, signed, hm.compare_eq hm', beq_iff_eq,
        Option.some.injEq]
      exact compare_lt_iff_lt

/-! ### Operands that are not finite -/

theorem isFinite_pack_of_lost {u : UnpackedFloat} (hu : u.isFinite = false) :
    Float32.isFinite ⟨.pack u⟩ = false := by
  cases u with
  | notANumber => rfl
  | infinity s => cases s <;> rfl
  | zero s => cases hu
  | finite s m e hm => cases hu

theorem isFinite_add_eq_false {u v : UnpackedFloat} (h : (u.isFinite && v.isFinite) = false) :
    (UnpackedFloat.add .binary32 u v).isFinite = false := by
  cases u with
  | notANumber => cases v <;> rfl
  | infinity s =>
    cases v with
    | infinity s' => cases s <;> cases s' <;> rfl
    | _ => rfl
  | _ =>
    cases v with
    | notANumber | infinity => rfl
    | _ => cases h

theorem isFinite_mul_eq_false {u v : UnpackedFloat} (h : (u.isFinite && v.isFinite) = false) :
    (UnpackedFloat.mul .binary32 u v).isFinite = false := by
  cases u with
  | notANumber => cases v <;> rfl
  | infinity s => cases v <;> rfl
  | _ =>
    cases v with
    | notANumber | infinity => rfl
    | _ => cases h

theorem isFinite_of_add (h : (a + b).isFinite = true) : a.isFinite = true ∧ b.isFinite = true := by
  rw [← Bool.and_eq_true]
  by_contra hlost
  rw [Bool.not_eq_true] at hlost
  have hsum : (a + b).isFinite = false := isFinite_pack_of_lost (isFinite_add_eq_false hlost)
  rw [h] at hsum
  cases hsum

theorem isFinite_of_mul (h : (a * b).isFinite = true) : a.isFinite = true ∧ b.isFinite = true := by
  rw [← Bool.and_eq_true]
  by_contra hlost
  rw [Bool.not_eq_true] at hlost
  have hproduct : (a * b).isFinite = false := isFinite_pack_of_lost (isFinite_mul_eq_false hlost)
  rw [h] at hproduct
  cases hproduct

/-! ## Bounds -/

theorem rounds_value (ha : a.isFinite = true) : Rounds a (value a) := by
  obtain ⟨s, m, e, hm, he, hua⟩ := exists_digits ha
  have hround : round (value a) = value a := by
    rw [value, hua, toRat_ofDigits, round_signed, round_of_digits hm.lt hm.low]
  have hlt : |round (value a)| < 2 ^ 128 := by
    rw [hround, value, hua, toRat_ofDigits, abs_signed, abs_of_nonneg (by positivity)]
    exact hm.value_lt he
  exact ⟨fun _ => ⟨ha, hround.symm⟩, fun hge => absurd hlt (not_lt.2 hge)⟩

theorem abs_round (x : ℚ) : |round x| = round |x| := by
  rcases abs_cases x with ⟨habs, hx⟩ | ⟨habs, hx⟩
  · rw [habs, abs_of_nonneg (round_nonneg hx)]
  · rw [habs, round_neg, abs_of_nonpos]
    have := round_nonneg (neg_nonneg.2 hx.le)
    rw [round_neg] at this
    linarith

namespace Rounds

variable {r r' : Float32} {x y : ℚ}

theorem isFinite_iff (h : Rounds r x) : r.isFinite = true ↔ |round x| < 2 ^ 128 := by
  refine ⟨fun hr => ?_, fun hlt => (h.finite hlt).1⟩
  by_contra hge
  have hinfinite := h.infinite (not_lt.1 hge)
  have : r.isFinite = r.toModel.unpack.isFinite := rfl
  rw [this, hinfinite] at hr
  cases hr

theorem value_eq (h : Rounds r x) (hr : r.isFinite = true) : value r = round x :=
  (h.finite (h.isFinite_iff.1 hr)).2

theorem nonneg (h : Rounds r x) (hr : r.isFinite = true) (hx : 0 ≤ x) : 0 ≤ value r := by
  rw [h.value_eq hr]
  exact round_nonneg hx

/-- Computed numbers are in the order of the exact ones. -/
theorem mono (h : Rounds r x) (h' : Rounds r' y) (hr : r.isFinite = true) (hr' : r'.isFinite = true)
    (hxy : x ≤ y) : value r ≤ value r' := by
  rw [h.value_eq hr, h'.value_eq hr']
  exact round_mono hxy

/-- A number is finite if a larger one is. -/
theorem isFinite_of_le (h : Rounds r x) (h' : Rounds r' y) (hr' : r'.isFinite = true)
    (hxy : |x| ≤ y) : r.isFinite = true := by
  have hy : 0 ≤ y := (abs_nonneg x).trans hxy
  have hlt := h'.isFinite_iff.1 hr'
  rw [abs_round, abs_of_nonneg hy] at hlt
  rw [h.isFinite_iff, abs_round]
  exact (round_mono hxy).trans_lt hlt

theorem abs_le (h : Rounds r x) (h' : Rounds r' y) (hr' : r'.isFinite = true) (hxy : |x| ≤ y) :
    r.isFinite = true ∧ |value r| ≤ value r' := by
  have hr := h.isFinite_of_le h' hr' hxy
  refine ⟨hr, ?_⟩
  rw [h.value_eq hr, h'.value_eq hr', abs_round]
  exact round_mono hxy

/-- A finite float is near the number that was rounded. -/
theorem abs_sub_le (h : Rounds r x) (hr : r.isFinite = true) : |value r - x| ≤ 2 ^ 103 := by
  have hx : |x| < 2 ^ 128 := by
    by_contra hge
    have hround := round_mono (not_lt.1 hge)
    rw [round_two_pow, ← abs_round] at hround
    exact absurd (h.isFinite_iff.1 hr) (not_lt.2 hround)
  rw [h.value_eq hr]
  calc |round x - x| ≤ 1 / 2 * 2 ^ quantum x := abs_round_sub_le x
    _ ≤ 1 / 2 * 2 ^ (104 : ℤ) := by
      gcongr
      · norm_num
      · exact quantum_le_of_lt hx
    _ = 2 ^ 103 := by norm_num

end Rounds

/-- Half of a float that is not small is a float again. -/
theorem round_half_value (ha : a.isFinite = true) (hone : 1 ≤ |value a|) :
    round (value a / 2) = value a / 2 := by
  obtain ⟨s, m, e, hm, -, hua⟩ := exists_digits ha
  rw [value, hua, toRat_ofDigits] at hone ⊢
  rw [abs_signed, abs_of_nonneg (by positivity)] at hone
  have he : -24 < e := by
    have hlt : (2 : ℚ) ^ (-24 : ℤ) < 2 ^ e := by
      have hm' : (m : ℚ) < 2 ^ 24 := by exact_mod_cast hm.lt
      have hbound := mul_lt_mul_of_pos_right hm' (zpow_two_pos e)
      norm_num at hbound ⊢
      linarith
    exact (zpow_lt_zpow_iff_right₀ (by norm_num)).1 hlt
  have hhalf : signed s (m * 2 ^ e) / 2 = signed s (m * 2 ^ (e - 1)) := by
    rw [div_eq_mul_inv, signed_mul, zpow_sub_one₀ two_ne_zero, mul_assoc]
  rw [hhalf, round_signed, round_of_digits hm.lt (by omega)]

/-! ## Numbers from zero to infinity -/

/-- Finite and not negative, or infinite. -/
def Rising (a : Float32) : Prop :=
  a.isFinite = true ∧ 0 ≤ value a ∨ a.toModel.unpack = .infinity .positive

theorem Rounds.rising {r : Float32} {x : ℚ} (h : Rounds r x) (hx : 0 ≤ x) : Rising r := by
  by_cases hr : r.isFinite = true
  · exact Or.inl ⟨hr, h.nonneg hr hx⟩
  · have hge : 2 ^ 128 ≤ |round x| := not_lt.1 (fun hlt => hr (h.isFinite_iff.2 hlt))
    have hinfinite := h.infinite hge
    rw [if_neg hx.not_gt] at hinfinite
    exact Or.inr hinfinite

theorem add_infinity {u : UnpackedFloat} (hu : u.isFinite = true) (sign : Sign) :
    UnpackedFloat.add .binary32 u (.infinity sign) = .infinity sign := by
  cases u with
  | notANumber | infinity => cases hu
  | _ => rfl

theorem infinity_add {u : UnpackedFloat} (hu : u.isFinite = true) (sign : Sign) :
    UnpackedFloat.add .binary32 (.infinity sign) u = .infinity sign := by
  cases u with
  | notANumber | infinity => cases hu
  | _ => rfl

theorem Rising.add (ha : Rising a) (hb : Rising b) : Rising (a + b) := by
  have hsum : a + b = ⟨.pack (UnpackedFloat.add .binary32 a.toModel.unpack b.toModel.unpack)⟩ := rfl
  rcases ha with ⟨ha, hva⟩ | ha <;> rcases hb with ⟨hb, hvb⟩ | hb
  · exact (rounds_add ha hb).rising (add_nonneg hva hvb)
  · right
    rw [hsum, hb, add_infinity ha]
    rfl
  · right
    rw [hsum, ha, infinity_add hb]
    rfl
  · right
    rw [hsum, ha, hb]
    rfl

/-- A product with a positive number. -/
theorem Rising.mul (ha : a.isFinite = true) (hpos : 0 < value a) (hb : Rising b) :
    Rising (a * b) := by
  rcases hb with ⟨hb, hvb⟩ | hb
  · exact (rounds_mul ha hb).rising (mul_nonneg hpos.le hvb)
  · right
    obtain ⟨s, m, e, -, -, hua⟩ := exists_digits ha
    rw [value, hua, toRat_ofDigits] at hpos
    have hm : 0 < m := by
      rcases Nat.eq_zero_or_pos m with rfl | h
      · rw [signed_zero_mul] at hpos
        exact absurd hpos (lt_irrefl 0)
      · exact h
    have hs : s = .positive := by
      cases s
      · have : (0 : ℚ) ≤ m * 2 ^ e := by positivity
        simp only [signed] at hpos
        linarith
      · rfl
    have hproduct : a * b =
        ⟨.pack (UnpackedFloat.mul .binary32 a.toModel.unpack b.toModel.unpack)⟩ := rfl
    have hinfinite : UnpackedFloat.mul .binary32 (.finite .positive m e hm) (.infinity .positive) =
        .infinity .positive := rfl
    rw [hproduct, hua, hb, ofDigits_pos s hm, hs, hinfinite]
    rfl

theorem Rising.isNaN (ha : Rising a) : a.isNaN = false := by
  have hmodel : a.isNaN = a.toModel.unpack.isNaN := rfl
  rcases ha with ⟨ha, -⟩ | ha
  · obtain ⟨s, m, e, -, -, hu⟩ := exists_digits ha
    rw [hmodel, hu, ofDigits]
    split <;> rfl
  · rw [hmodel, ha]
    rfl

theorem not_lt_of_infinity (ha : a.isFinite = true)
    (hb : b.toModel.unpack = .infinity .positive) : ¬ b < a := by
  obtain ⟨s, m, e, -, -, hu⟩ := exists_digits ha
  rw [lt_iff_unpack, hb, hu, ofDigits, Bool.not_eq_true]
  split <;> rfl

/-! ## The end of the range -/

/-- Numbers less than half a unit past the largest float do not leave the range. -/
theorem abs_round_lt {x : ℚ} (hx : |x| < 2 ^ 128 - 2 ^ 103) : |round x| < 2 ^ 128 := by
  rw [abs_round]
  generalize hy : |x| = y at hx
  have hnonneg : 0 ≤ y := hy ▸ abs_nonneg x
  rcases lt_or_ge y (2 ^ 127) with hlt | hge
  · have := round_mono hlt.le
    rw [round_two_pow] at this
    linarith
  · have hpos : 0 < y := lt_of_lt_of_le (by norm_num) hge
    have hlog : Int.log 2 y = 127 := by
      apply le_antisymm
      · have hlt : y < ((2 : ℕ) : ℚ) ^ (128 : ℤ) := by norm_num at hx ⊢; linarith
        exact Int.lt_add_one_iff.1 ((Int.lt_zpow_iff_log_lt (by norm_num) hpos).1 hlt)
      · exact (Int.zpow_le_iff_le_log (by norm_num) hpos).1 (by norm_num at hge ⊢; exact hge)
    have hquantum : quantum y = 104 := by
      rw [quantum, abs_of_pos hpos, hlog]
      rfl
    have hscaled : y / 2 ^ (104 : ℤ) < ((2 ^ 24 - 1 : ℤ) : ℚ) + 1 / 2 := by
      rw [div_lt_iff₀ (by norm_num)]
      norm_num at hx ⊢
      linarith
    have hnearest : (nearestEven (y / 2 ^ (104 : ℤ)) : ℚ) ≤ ((2 ^ 24 - 1 : ℤ) : ℚ) := by
      exact_mod_cast nearestEven_le_of_lt hscaled
    rw [round, hquantum]
    calc (nearestEven (y / 2 ^ (104 : ℤ)) : ℚ) * 2 ^ (104 : ℤ)
        ≤ ((2 ^ 24 - 1 : ℤ) : ℚ) * 2 ^ (104 : ℤ) :=
          mul_le_mul_of_nonneg_right hnearest (by norm_num)
      _ < 2 ^ 128 := by norm_num

theorem abs_value_le (ha : a.isFinite = true) : |value a| ≤ 2 ^ 128 - 2 ^ 104 := by
  obtain ⟨s, m, e, hm, he, hua⟩ := exists_digits ha
  rw [value, hua, toRat_ofDigits, abs_signed, abs_of_nonneg (by positivity)]
  exact hm.value_le he

/-- A small step does not leave the range from any float. -/
theorem isFinite_sub_of_small (ha : a.isFinite = true) (hb : b.isFinite = true)
    (hsmall : |value b| < 2 ^ 103) : (a - b).isFinite = true := by
  have hlt : |value a - value b| < 2 ^ 128 - 2 ^ 103 := by
    have hsum := abs_sub (value a) (value b)
    have hle := abs_value_le ha
    norm_num at hle hsmall ⊢
    linarith
  exact ((rounds_sub ha hb).finite (abs_round_lt hlt)).1

end LadderLogic.Rounding
