import CodeAudit.Proofs.Number.Double

/-!
# Exact doubles

A double holds every integer below the fifty-third power of two exactly: its integer part is that integer. The module
follows an integer on its way: it is shifted until it has fifty-three bits, rounded, packed into sixty-four bits,
unpacked, multiplied by one, and packed again, and nothing is lost at any step.

## Main definitions

* `Number.formOf` — the form of a double from the parts that arithmetic sees.

## Main results

* `Number.isFinite_ofInt` — integers up to one more than the greatest become numbers.
* `Number.truncate_ofInt_of_truncate` — the integer part of a double is the integer part of itself.
* `Number.ratio_self` — the quotient of a number by itself is one.
-/

namespace CodeAudit.Number

open Float.Model UnpackedFloat Format

variable {m : ℕ} {e : ℤ} {x : Float}

/-! ## Rounding without loss -/

lemma shiftRight_exact (m k : ℕ) : (⟨m * 2 ^ k, false, false⟩ : ExtendedMantissa) >>> k = ⟨m, false, false⟩ := by
  induction k generalizing m with
  | zero =>
    change (⟨m * 2 ^ 0, false, false⟩ : ExtendedMantissa) = _
    rw [pow_zero, mul_one]
  | succ k ih =>
    change ExtendedMantissa.shiftRightOne ((⟨m * 2 ^ (k + 1), false, false⟩ : ExtendedMantissa) >>> k) = _
    rw [show m * 2 ^ (k + 1) = m * 2 * 2 ^ k by ring, ih]
    simp [ExtendedMantissa.shiftRightOne]

lemma log2_eq (hlow : 2 ^ 52 ≤ m) (hm : m < 2 ^ 53) : m.log2 = 52 :=
  (Nat.log2_eq_iff (by omega)).mpr ⟨hlow, hm⟩

/-- The bits that are shifted out are not set. -/
lemma shiftToTargetExponent_exact (hlow : 2 ^ 52 ≤ m) (hm : m < 2 ^ 53) (he : -1074 ≤ e) (k : ℕ) :
    shiftToTargetExponent binary64 (m * 2 ^ k) (e - k) .exact = (⟨m, false, false⟩, e) := by
  have hlog := log2_shiftLeft (show m ≠ 0 by omega) k
  rw [Nat.shiftLeft_eq, log2_eq hlow hm] at hlog
  rw [shiftToTargetExponent_eq _ _ _ (k := k) (by omega), sub_add_cancel]
  exact congrArg (·, e) (shiftRight_exact m k)

/-- **Rounding changes nothing** where fifty-three bits are enough. -/
lemma roundWithAccuracy_exact (s : Sign) (hlow : 2 ^ 52 ≤ m) (hm : m < 2 ^ 53) (he : -1074 ≤ e) (k : ℕ) :
    roundWithAccuracy binary64 s (m * 2 ^ k) (e - k) .exact = .finite s m e (by omega) := by
  have hsecond := shiftToTargetExponent_exact hlow hm he 0
  rw [pow_zero, mul_one, Nat.cast_zero, sub_zero] at hsecond
  have hround : (⟨m, false, false⟩ : ExtendedMantissa).roundedMantissa = m := rfl
  rw [roundWithAccuracy, shiftToTargetExponent_exact hlow hm he]
  simp only [hround, hsecond]
  rw [dif_neg (by omega)]

lemma roundWithAccuracy_one : roundWithAccuracy binary64 .positive (2 ^ 52 * 2 ^ 1) (-52 - 1) .exact =
    .finite .positive (2 ^ 52) (-52) (by decide) :=
  roundWithAccuracy_exact .positive (by decide) (by decide) (by decide) 1

/-! ## Taking apart -/

/-- The parts of a double taken apart by the bits, from the parts that arithmetic sees. -/
def formOf : UnpackedFloat → Form
  | .notANumber => .nan
  | .infinity s => .infinite (s matches .negative)
  | .zero s => .finite (s matches .negative) 0 (-1074)
  | .finite s m e _ => .finite (s matches .negative) m e

lemma unpackMantissa_toNat (b : BitVec binary64.numBits) :
    (unpackMantissa b).toNat = b.toNat % leadingBit := by
  simp [unpackMantissa, leadingBit]

lemma isNegative_unpackSign (b : BitVec binary64.numBits) :
    (Sign.ofBitVec (unpackSign b) matches .negative) = decide (0x8000000000000000 ≤ b.toNat) := by
  have hlt : b.toNat < 2 ^ 64 := b.isLt
  have hbit : (unpackSign b).toNat = b.toNat / 2 ^ 63 := by
    rw [unpackSign, BitVec.toNat_cast, BitVec.extractLsb, BitVec.extractLsb'_toNat, Nat.shiftRight_eq_div_pow]
    exact Nat.mod_eq_of_lt (show b.toNat / 2 ^ 63 < 2 ^ (63 - 63 + 1) by omega)
  have hzero : unpackSign b = 0#1 ↔ b.toNat / 2 ^ 63 = 0 := by
    rw [← hbit]
    exact ⟨fun h => by rw [h]; rfl, fun h => BitVec.eq_of_toNat_eq h⟩
  unfold Sign.ofBitVec
  by_cases hsign : b.toNat / 2 ^ 63 = 0
  · rw [if_pos (hzero.mpr hsign), eq_comm, decide_eq_false_iff_not]
    omega
  · rw [if_neg (mt hzero.mp hsign), eq_comm, decide_eq_true_iff]
    omega

/-- **Taking a double apart** by its bits gives the parts that arithmetic sees. -/
lemma ofFloat_eq (x : Float) : Form.ofFloat x = formOf x.toModel.unpack := by
  set b : BitVec binary64.numBits := x.toBits.toBitVec with hb
  have hnat : x.toBits.toNat = b.toNat := rfl
  have hreserved : b.toNat / leadingBit % 0x800 = 2047 ↔ unpackExponent b = -(BitVec.ofNat 11 1) := by
    rw [← exponentOf_eq]
    exact ⟨fun h => BitVec.eq_of_toNat_eq h, fun h => by rw [exponentOf, h]; rfl⟩
  have hzero : b.toNat / leadingBit % 0x800 = 0 ↔ unpackExponent b = 0#11 := by
    rw [← exponentOf_eq]
    exact ⟨fun h => BitVec.eq_of_toNat_eq h, fun h => by rw [exponentOf, h]; rfl⟩
  have hnone : b.toNat % leadingBit = 0 ↔ unpackMantissa b = 0#52 := by
    rw [← unpackMantissa_toNat]
    exact ⟨fun h => BitVec.eq_of_toNat_eq h, fun h => by rw [h]; rfl⟩
  change Form.ofFloat x = formOf (UnpackedFloat.unpack binary64 b)
  simp only [Form.ofFloat, hnat, UnpackedFloat.unpack, hreserved, hzero, hnone]
  split_ifs with h1 h2 h3 h4
  · simp only [formOf, isNegative_unpackSign]
  · rfl
  · have := hnone.mpr h4
    simp only [formOf, isNegative_unpackSign, this]
  · simp only [formOf, isNegative_unpackSign, unpackMantissa_toNat, Form.finite.injEq, true_and, h3]
    decide
  · have hlead : (1#1 ++ unpackMantissa b).toNat = leadingBit + b.toNat % leadingBit := by
      have hlt : b.toNat % leadingBit < 2 ^ 52 := Nat.mod_lt _ (by decide)
      rw [BitVec.toNat_append, unpackMantissa_toNat, ← Nat.shiftLeft_add_eq_or_of_lt hlt]
      rfl
    simp only [formOf, isNegative_unpackSign, hlead, Form.finite.injEq, true_and]
    rw [← exponentOf_eq]
    rfl

/-! ## Packing -/

/-- **What was packed is unpacked again**, if it has fifty-three bits and an exponent that doubles can have. -/
lemma unpack_pack {s : Sign} (hlow : 2 ^ 52 ≤ m) (hm : m < 2 ^ 53) (hleast : -1074 ≤ e) (he : e ≤ 971) :
    UnpackedFloat.unpack binary64 (UnpackedFloat.pack binary64 (.finite s m e (by omega))) =
      .finite s m e (by omega) := by
  have hexponent : ¬ 2 ^ 11 ≤ (e + 1023 + 52).toNat + 1 := by omega
  have hlog : m.log2 + 1 = binary64.mantissaBits := by
    rw [log2_eq hlow hm]
    rfl
  have hpack : UnpackedFloat.pack binary64 (.finite s m e (by omega)) =
      packComponents binary64 s (BitVec.ofNat 11 (e + 1023 + 52).toNat) (BitVec.ofNat 52 m) := by
    rw [UnpackedFloat.pack]
    change (if 2 ^ 11 ≤ (e + 1023 + 52).toNat + 1 then _ else _) = _
    rw [if_neg hexponent, if_pos hlog]
    rfl
  have hbiased : (BitVec.ofNat 11 (e + 1023 + 52).toNat).toNat = (e + 1023 + 52).toNat := by
    rw [BitVec.toNat_ofNat]
    omega
  have hreserved : BitVec.ofNat 11 (e + 1023 + 52).toNat ≠ -(BitVec.ofNat 11 1) := by
    intro h
    have := congrArg BitVec.toNat h
    rw [hbiased] at this
    change _ = 2047 at this
    omega
  have hzero : BitVec.ofNat 11 (e + 1023 + 52).toNat ≠ 0#11 := by
    intro h
    have := congrArg BitVec.toNat h
    rw [hbiased] at this
    change _ = 0 at this
    omega
  have hmantissa : (1#1 ++ BitVec.ofNat 52 m).toNat = m := by
    have hlt : (BitVec.ofNat 52 m).toNat < 2 ^ 52 := (BitVec.ofNat 52 m).isLt
    rw [BitVec.toNat_append, ← Nat.shiftLeft_add_eq_or_of_lt hlt, BitVec.toNat_ofNat, BitVec.toNat_ofNat]
    omega
  rw [hpack, UnpackedFloat.unpack]
  simp only [unpackExponent_packComponents, unpackMantissa_packComponents, unpackSign_packComponents]
  rw [if_neg hreserved, if_neg hzero]
  simp only [Sign.ofBitVec_toBitVec, finite.injEq, true_and]
  refine ⟨hmantissa, ?_⟩
  rw [hbiased]
  change ((e + 1023 + 52).toNat : ℤ) - (1023 + 52) = e
  omega

/-- Packing a number does not give not-a-number. -/
lemma isNaN_pack {u : UnpackedFloat} (h : u.isNaN = false) : (⟨Float.Model.pack u⟩ : Float).isNaN = false := by
  -- not-a-number has the reserved exponent and a mantissa
  have hunpack : ∀ (s : Sign) (exponent : BitVec 11) (mantissa : BitVec 52),
      (exponent ≠ -(BitVec.ofNat 11 1) ∨ mantissa = 0#52) →
      (UnpackedFloat.unpack binary64 (packComponents binary64 s exponent mantissa)).isNaN = false := by
    intro s exponent mantissa hparts
    rw [UnpackedFloat.unpack]
    simp only [unpackExponent_packComponents, unpackMantissa_packComponents]
    split_ifs with h1 h2
    · rfl
    · exact absurd hparts (by tauto)
    · rfl
    · rfl
    · rfl
  change (UnpackedFloat.unpack binary64 (UnpackedFloat.pack binary64 u)).isNaN = false
  cases u with
  | notANumber => cases h
  | infinity s => exact hunpack _ _ _ (.inr rfl)
  | zero s => exact hunpack _ _ _ (.inr rfl)
  | finite s m e hm =>
    rw [UnpackedFloat.pack]
    simp only
    split_ifs with hgreat
    · exact hunpack _ _ _ (.inr rfl)
    · refine hunpack _ _ _ (.inl fun heq => hgreat ?_)
      have hnat := congrArg BitVec.toNat heq
      rw [BitVec.toNat_ofNat] at hnat
      change _ % 2 ^ 11 = 2047 at hnat
      change 2 ^ 11 ≤ _
      have := Nat.mod_le (e + binary64.exponentBias + binary64.mantissaBitsWithoutImplicit).toNat (2 ^ 11)
      omega
    · exact hunpack _ _ _ (.inl (by decide))

lemma isNaN_roundWithAccuracy (s : Sign) (m : ℕ) (e : ℤ) (accuracy : Accuracy) :
    (roundWithAccuracy binary64 s m e accuracy).isNaN = false := by
  unfold roundWithAccuracy
  simp only
  split_ifs <;> rfl

/-- The product with a number that is not zero is not not-a-number, unless the other factor is. -/
lemma isNaN_mul {y : Float} (hx : x.isNaN = false) {s : Sign} {hm : 0 < m}
    (hy : y.toModel.unpack = .finite s m e hm) : (x * y).isNaN = false := by
  change Float.isNaN ⟨Float.Model.pack (UnpackedFloat.mul binary64 x.toModel.unpack y.toModel.unpack)⟩ = false
  refine isNaN_pack ?_
  change x.toModel.unpack.isNaN = false at hx
  rw [hy]
  cases hunpack : x.toModel.unpack with
  | notANumber =>
    rw [hunpack] at hx
    cases hx
  | infinity s => rfl
  | zero s => rfl
  | finite s m e hm => exact isNaN_roundWithAccuracy _ _ _ _

/-! ## Integers -/

/-- The mantissa of a small integer has fifty-three bits. -/
lemma bounds_mantissa (hpos : 0 < m) (hm : m < 2 ^ 53) :
    2 ^ 52 ≤ m * 2 ^ (52 - m.log2) ∧ m * 2 ^ (52 - m.log2) < 2 ^ 53 := by
  have hlog : m.log2 ≤ 52 := log2_le_of_lt hm
  have hshifted := log2_shiftLeft hpos.ne' (52 - m.log2)
  rw [Nat.shiftLeft_eq] at hshifted
  exact (Nat.log2_eq_iff (by positivity)).mp (by omega)

/-- A small integer, shifted by any number of bits, is shifted until it has fifty-three bits. -/
lemma normalize_eq (hpos : 0 < m) (hm : m < 2 ^ 53) (j : ℕ) :
    UnpackedFloat.normalize binary64 (m * 2 ^ j : ℕ) (-(j : ℤ)) .positive =
      .finite .positive (m * 2 ^ (52 - m.log2)) (-(52 - m.log2 : ℕ) : ℤ) (by positivity) := by
  have hlog : m.log2 ≤ 52 := log2_le_of_lt hm
  obtain ⟨hlow, hhigh⟩ := bounds_mantissa hpos hm
  have hcompare : compare ((m * 2 ^ j : ℕ) : ℤ) 0 = .gt := Int.compare_eq_gt.mpr (by positivity)
  have hshifted := log2_shiftLeft hpos.ne' j
  rw [Nat.shiftLeft_eq] at hshifted
  have hshift : (-(j : ℤ) - max (((m * 2 ^ j).log2 : ℤ) + 1 + -(j : ℤ) - 53) (-1074)).toNat = 52 - m.log2 - j := by
    omega
  rw [UnpackedFloat.normalize, hcompare, Int.toNat_natCast]
  change roundWithAccuracy binary64 .positive
    ((m * 2 ^ j) <<< (-(j : ℤ) - max (((m * 2 ^ j).log2 : ℤ) + 1 + -(j : ℤ) - 53) (-1074)).toNat)
    (-(j : ℤ) - ((-(j : ℤ) - max (((m * 2 ^ j).log2 : ℤ) + 1 + -(j : ℤ) - 53) (-1074)).toNat : ℤ)) .exact = _
  rw [hshift, Nat.shiftLeft_eq, mul_assoc, ← pow_add,
    show j + (52 - m.log2 - j) = (52 - m.log2) + (j - (52 - m.log2)) by omega, pow_add, ← mul_assoc,
    show -(j : ℤ) - (52 - m.log2 - j : ℕ) = -(52 - m.log2 : ℕ) - (j - (52 - m.log2) : ℕ) by omega]
  exact roundWithAccuracy_exact .positive hlow hhigh (by omega) _

/-- A small integer, before it is packed into bits. -/
lemma ofUInt64_eq (hpos : 0 < m) (hm : m < 2 ^ 53) : UnpackedFloat.ofUInt64 Format.binary64 m.toUInt64 =
      .finite .positive (m * 2 ^ (52 - m.log2)) (-(52 - m.log2 : ℕ) : ℤ) (by positivity) := by
  have hword : m.toUInt64.toNat = m := by
    change m % 2 ^ 64 = m
    omega
  rw [UnpackedFloat.ofUInt64, hword, UnpackedFloat.ofNat, UnpackedFloat.ofInt, ← normalize_eq hpos hm 0]
  simp

lemma quotient_shifted (m k : ℕ) :
    (quotient (m * 2 ^ k) (-(k : ℤ))).1 / (quotient (m * 2 ^ k) (-(k : ℤ))).2 = m := by
  rcases Nat.eq_zero_or_pos k with rfl | hk
  · simp [quotient]
  · rw [quotient, if_neg (by omega), neg_neg, Int.toNat_natCast]
    exact Nat.mul_div_cancel m (Nat.two_pow_pos k)

/-- A number of halvings that leave an integer. -/
lemma truncate_of_ofFloat {k : ℕ} (h : Form.ofFloat x = .finite false (m * 2 ^ k) (-(k : ℤ))) :
    truncate x = .ok m := by
  rw [truncate, h]
  simp only [quotient_shifted]
  rfl

/-- A small integer as a double, packed into bits. -/
lemma ofInt_eq_pack (hpos : 0 < m) (hm : m < 2 ^ 53) : ofInt m = ⟨Float.Model.pack
      (.finite .positive (m * 2 ^ (52 - m.log2)) (-(52 - m.log2 : ℕ) : ℤ) (by positivity))⟩ := by
  obtain ⟨hlow, hhigh⟩ := bounds_mantissa hpos hm
  have hpacked := ofUInt64_eq hpos hm
  set k := 52 - m.log2 with hk
  have hunpack := unpack_pack (s := .positive) (e := -(k : ℤ)) hlow hhigh (by omega) (by omega)
  -- the short way to a double multiplies by one
  have hone : UnpackedFloat.unpack binary64 4607182418800017408#64 =
      .finite .positive (2 ^ 52) (-52) (by decide) := rfl
  have hproduct : UnpackedFloat.mul binary64 (.finite .positive (m * 2 ^ k) (-(k : ℤ)) (by positivity))
      (.finite .positive (2 ^ 52) (-52) (by decide)) =
        .finite .positive (m * 2 ^ k) (-(k : ℤ)) (by positivity) :=
    roundWithAccuracy_exact .positive hlow hhigh (by omega) 52
  have hshort : ofInt m = m.toUInt64.toFloat * Float.ofBits 4607182418800017408 := by
    rw [ofInt, if_neg (by omega), Int.natAbs_natCast, Float.ofScientific]
    split
    · rfl
    · omega
  rw [hshort]
  change (⟨Float.Model.pack (UnpackedFloat.mul binary64
    (UnpackedFloat.unpack binary64 (UnpackedFloat.pack binary64
      (ofUInt64 binary64 m.toUInt64)))
    (UnpackedFloat.unpack binary64 4607182418800017408#64))⟩ : Float) = _
  rw [hpacked, hunpack, hone, hproduct]

/-- A small integer as a double. -/
lemma ofInt_eq (hpos : 0 < m) (hm : m < 2 ^ 53) :
    (ofInt m).toModel.unpack = .finite .positive (m * 2 ^ (52 - m.log2)) (-(52 - m.log2 : ℕ) : ℤ) (by positivity) := by
  obtain ⟨hlow, hhigh⟩ := bounds_mantissa hpos hm
  rw [ofInt_eq_pack hpos hm]
  exact unpack_pack hlow hhigh (by omega) (by omega)

lemma ofFloat_ofInt_zero : Form.ofFloat (ofInt (0 : ℕ)) = .finite false 0 (-(1074 : ℕ)) := by
  decide +kernel

/-- **A small integer is the integer part of its double.** -/
lemma truncate_ofInt (hm : m < 2 ^ 53) : truncate (ofInt m) = .ok m := by
  rcases Nat.eq_zero_or_pos m with rfl | hpos
  · exact truncate_of_ofFloat (k := 1074) (by rw [ofFloat_ofInt_zero, zero_mul])
  · exact truncate_of_ofFloat (by rw [ofFloat_eq, ofInt_eq hpos hm]; rfl)

/-- A great integer, rounded and packed into bits. -/
lemma ofInt_eq_pack_of_ge (h : 2 ^ 53 ≤ m) :
    ofInt m = ⟨Float.Model.pack (roundWithAccuracy Format.binary64 .positive (m <<< 53) (-53) .exact)⟩ := by
  have hlong : ofInt m = ⟨Float.Model.pack (UnpackedFloat.ofScientific Format.binary64 m 0)⟩ := by
    rw [ofInt, if_neg (by omega), Int.natAbs_natCast, Float.ofScientific]
    split
    · omega
    · rfl
  have hsize : ¬ (0 : ℤ) < -(2 ^ Format.binary64.exponentBits + (m.log2 : ℤ)) := by
    have : (0 : ℤ) ≤ 2 ^ Format.binary64.exponentBits := by decide
    omega
  have hbits : Format.binary64.mantissaBits = 53 := rfl
  rw [hlong, UnpackedFloat.ofScientific, dif_neg (by omega), if_neg (by decide), if_neg hsize, if_pos (by decide)]
  simp only [UnpackedFloat.mul, hbits, Int.toNat_zero, pow_zero, mul_one, add_zero]
  rfl

/-- A great integer with few bits, before it is packed. -/
lemma ofInt_eq_pack_of_le {a e : ℕ} (hlow : 2 ^ 52 ≤ a) (ha : a < 2 ^ 53) (hpos : 0 < e) :
    ofInt (a * 2 ^ e : ℕ) = ⟨Float.Model.pack (.finite .positive a e (by omega))⟩ := by
  have hgreat : 2 ^ 53 ≤ a * 2 ^ e :=
    calc 2 ^ 53 = 2 ^ 52 * 2 ^ 1 := by norm_num
      _ ≤ a * 2 ^ e := Nat.mul_le_mul hlow (Nat.pow_le_pow_right (by decide) hpos)
  rw [ofInt_eq_pack_of_ge hgreat, ← roundWithAccuracy_exact .positive hlow ha (show -1074 ≤ (e : ℤ) by omega) (e + 53),
    Nat.shiftLeft_eq, pow_add, ← mul_assoc, show (e : ℤ) - (e + 53 : ℕ) = -53 by omega]

lemma ofInt_of_neg {n : ℤ} (h : n < 0) : ofInt n = -ofInt n.natAbs := by
  rw [ofInt, ofInt, if_pos h, if_neg (by omega), Int.natAbs_natCast]

/-- **Integers up to one more than the greatest become numbers.** -/
theorem isFinite_ofInt {n : ℤ} (h : n.natAbs ≤ greatest + 1) : IsFinite (ofInt n) := by
  have hnat : IsFinite (ofInt n.natAbs) := by
    rcases Nat.lt_or_ge n.natAbs (2 ^ 53) with hsmall | hgreat
    · rcases Nat.eq_zero_or_pos n.natAbs with hzero | hpos
      · rw [hzero]
        exact ⟨_, _, _, ofFloat_ofInt_zero⟩
      · exact ⟨_, _, _, by rw [ofFloat_eq, ofInt_eq hpos hsmall]; rfl⟩
    · rw [ofInt_eq_pack_of_ge hgreat]
      exact isFinite_of_within (within_shiftLeft _ (by omega) h)
  rcases lt_or_ge n 0 with hneg | hnonneg
  · rw [ofInt_of_neg hneg]
    exact isFinite_neg hnat
  · rwa [Int.natAbs_of_nonneg hnonneg] at hnat

/-- The integer part of what was packed. -/
lemma truncate_pack (s : Sign) (hlow : 2 ^ 52 ≤ m) (hm : m < 2 ^ 53) (hleast : -1074 ≤ e) (he : e ≤ 971) :
    truncate ⟨Float.Model.pack (.finite s m e (by omega))⟩ = .ok (match s with
      | .negative => -(((quotient m e).1 / (quotient m e).2 : ℕ) : ℤ)
      | .positive => ((quotient m e).1 / (quotient m e).2 : ℕ)) := by
  have hform : Form.ofFloat ⟨Float.Model.pack (.finite s m e (by omega))⟩ = formOf (.finite s m e (by omega)) :=
    (ofFloat_eq _).trans (congrArg formOf (unpack_pack hlow hm hleast he))
  rw [truncate, hform]
  cases s <;> rfl

/-- **The integer part of a double is a double**: it is the integer part of itself. -/
lemma truncate_ofInt_of_truncate {n : ℤ} (h : truncate x = .ok n) : truncate (ofInt n) = .ok n := by
  obtain ⟨m, k, hm, hk, hn⟩ := exists_natAbs_eq h
  rcases Nat.eq_zero_or_pos n.natAbs with hzero | hpos
  · obtain rfl : n = (0 : ℕ) := by omega
    exact truncate_ofInt (by decide)
  -- the mantissa has fifty-three bits, and what it stands for is the integer
  obtain ⟨a, e, hlow, hhigh, hleast, he, hpack, hquotient⟩ : ∃ a e, ∃ hlow : 2 ^ 52 ≤ a, a < 2 ^ 53 ∧
      -1074 ≤ e ∧ e ≤ 971 ∧ ofInt n.natAbs = ⟨Float.Model.pack (.finite .positive a e (by omega))⟩ ∧
      (quotient a e).1 / (quotient a e).2 = n.natAbs := by
    have hlog : m.log2 ≤ 52 := log2_le_of_lt hm
    rcases Nat.lt_or_ge n.natAbs (2 ^ 53) with hsmall | hgreat
    · obtain ⟨hlow, hhigh⟩ := bounds_mantissa hpos hsmall
      refine ⟨_, _, hlow, hhigh, by omega, by omega, ofInt_eq_pack hpos hsmall, quotient_shifted _ _⟩
    · have hm0 : 0 < m := by
        rcases Nat.eq_zero_or_pos m with rfl | h0
        · omega
        · exact h0
      obtain ⟨hlow, hhigh⟩ := bounds_mantissa hm0 hm
      have hlt : 52 - m.log2 < k := by
        by_contra hge
        have : m * 2 ^ k ≤ m * 2 ^ (52 - m.log2) := Nat.mul_le_mul_left _ (Nat.pow_le_pow_right (by decide) (by omega))
        omega
      have heq : n.natAbs = m * 2 ^ (52 - m.log2) * 2 ^ (k - (52 - m.log2)) := by
        rw [hn, mul_assoc, ← pow_add, Nat.add_sub_cancel' hlt.le]
      refine ⟨_, (k - (52 - m.log2) : ℕ), hlow, hhigh, by omega, by omega, ?_, ?_⟩
      · rw [heq]
        exact ofInt_eq_pack_of_le hlow hhigh (by omega)
      · simp [quotient, heq]
  rcases lt_or_ge n 0 with hneg | hnonneg
  · have hopposite : -ofInt n.natAbs = ⟨Float.Model.pack (.finite .negative a e (by omega))⟩ := by
      rw [hpack]
      exact congrArg (fun u : UnpackedFloat => (⟨Float.Model.pack u.neg⟩ : Float)) (unpack_pack hlow hhigh hleast he)
    rw [ofInt_of_neg hneg, hopposite, truncate_pack .negative hlow hhigh hleast he, hquotient]
    exact congrArg Except.ok (show -(n.natAbs : ℤ) = n by omega)
  · obtain ⟨n, rfl⟩ := Int.eq_ofNat_of_zero_le hnonneg
    rw [Int.natAbs_natCast] at hpack hquotient
    rw [hpack, truncate_pack .positive hlow hhigh hleast he, hquotient]

/-! ## Quotients -/

/-- **The quotient of a number by itself is one**, also if the number is too great for a double. -/
lemma ratio_self {n : ℕ} (h : 0 < n) : ratio n n = 1 := by
  -- the dividend is shifted by fifty-three bits, so the quotient has one bit more than a double holds
  have hcore : divCore binary64 n 0 n 0 = (2 ^ 52 * 2 ^ 1, -52 - 1, .exact) := by
    have htarget : binary64.targetExponent (totalExponent n 0 - totalExponent n 0) = -53 := by
      rw [sub_self]
      rfl
    rw [divCore, htarget, Nat.shiftLeft_eq]
    simp [accuracyOfFraction, Nat.mul_div_cancel_left _ h]
  rw [ratio, dif_pos ⟨h, h⟩, UnpackedFloat.div, hcore]
  change (⟨Float.Model.pack (roundWithAccuracy binary64 .positive (2 ^ 52 * 2 ^ 1) (-52 - 1) .exact)⟩ : Float) = 1
  rw [roundWithAccuracy_one]
  rfl

end CodeAudit.Number

namespace CodeAudit.Datum

/-- Integers up to one more than the greatest become numbers. -/
lemma intToFloat_eq_ok {n : ℤ} (h : n.natAbs ≤ Number.greatest + 1) : intToFloat n = .ok (Number.ofInt n) := by
  simp [intToFloat, (Number.isFinite_ofInt h).isInf_eq_false]

end CodeAudit.Datum
