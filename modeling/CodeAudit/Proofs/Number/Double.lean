import Mathlib
import CodeAudit.Datum.Arithmetic

/-!
# The exponents of doubles

An integer becomes the nearest double, which is infinite if the integer is too great. This module says that no
integer part of a double is too great, not even with one added to it: when it is rounded, it stays within the
greatest exponent.

## Main definitions

* `Number.greatest` — the greatest integer part of a double.
* `Number.Within` — a number whose exponent is at most a given one, before it is packed into bits.

## Main results

* `Number.within_roundWithAccuracy` — what rounding does to the exponent.
* `Number.within_shiftLeft` — integers up to one more than the greatest stay within the greatest exponent.
-/

namespace CodeAudit.Number

open Float.Model UnpackedFloat Format ExtendedMantissa

variable {x : Float} {m k : ℕ} {n top : ℤ} {u : UnpackedFloat}

/-- The greatest integer part of a double: all bits of its mantissa are set, and it has the greatest exponent. -/
def greatest : ℕ := (2 ^ 53 - 1) * 2 ^ 971

/-- A double that is a number. -/
def IsFinite (x : Float) : Prop :=
  ∃ negative m q, Form.ofFloat x = .finite negative m q

/-! ## The integer part of a double -/

/-- The parts of a double are small. -/
lemma bounds_of_ofFloat {negative : Bool} {q : ℤ}
    (h : Form.ofFloat x = .finite negative m q) : m < 2 ^ 53 ∧ q ≤ 971 := by
  have hlead : leadingBit = 2 ^ 52 := rfl
  have hfraction : x.toBits.toNat % leadingBit < leadingBit := Nat.mod_lt _ (by decide)
  have hexponent : x.toBits.toNat / leadingBit % 0x800 < 0x800 := Nat.mod_lt _ (by decide)
  simp only [Form.ofFloat] at h
  split_ifs at h
  · simp only [Form.finite.injEq] at h
    omega
  · simp only [Form.finite.injEq] at h
    omega

/-- The integer part of a double is a small number, shifted by some bits. -/
lemma exists_natAbs_eq (h : truncate x = .ok n) : ∃ m k, m < 2 ^ 53 ∧ k ≤ 971 ∧ n.natAbs = m * 2 ^ k := by
  unfold truncate at h
  split at h
  · cases h
  · cases h
  · rename_i negative m q hform
    obtain ⟨hm, hq⟩ := bounds_of_ofFloat hform
    have hn : n.natAbs = (quotient m q).1 / (quotient m q).2 := by
      rw [← Except.ok.inj h]
      cases negative
      · exact Int.natAbs_natCast _
      · exact (Int.natAbs_neg _).trans (Int.natAbs_natCast _)
    rw [hn, quotient]
    split_ifs
    · exact ⟨m, q.toNat, hm, by omega, Nat.div_one _⟩
    · exact ⟨_, 0, (Nat.div_le_self _ _).trans_lt hm, by decide, (mul_one _).symm⟩

/-- **No integer part of a double is greater than the greatest.** -/
lemma natAbs_le_greatest (h : truncate x = .ok n) : n.natAbs ≤ greatest := by
  obtain ⟨m, k, hm, hk, hn⟩ := exists_natAbs_eq h
  rw [hn, greatest]
  gcongr
  · omega
  · decide

lemma IsFinite.exists_truncate (h : IsFinite x) : ∃ n, truncate x = .ok n := by
  obtain ⟨negative, m, q, hform⟩ := h
  exact ⟨_, by rw [truncate, hform]⟩

/-! ## Packing and unpacking -/

/-- The exponent in the bits of a double. -/
def exponentOf (b : BitVec binary64.numBits) : ℕ :=
  (unpackExponent b).toNat

lemma exponentOf_eq (b : BitVec binary64.numBits) : exponentOf b = b.toNat / leadingBit % 0x800 := by
  rw [exponentOf, unpackExponent_def, BitVec.extractLsb'_toNat, Nat.shiftRight_eq_div_pow]
  rfl

/-- A double is a number exactly if its exponent is not the reserved one. -/
lemma isFinite_iff (x : Float) : IsFinite x ↔ exponentOf x.toBits.toBitVec ≠ 2047 := by
  rw [exponentOf_eq]
  change (∃ negative m q, Form.ofFloat x = .finite negative m q) ↔ x.toBits.toNat / leadingBit % 0x800 ≠ 2047
  simp only [Form.ofFloat]
  split_ifs with hreserved <;> simp [hreserved]

/-- A number whose exponent is at most `top`, before it is packed into bits. -/
inductive Within (top : ℤ) : UnpackedFloat → Prop
  | zero (s : Sign) : Within top (.zero s)
  | finite (s : Sign) (m : ℕ) {e : ℤ} (hm : 0 < m) (he : e ≤ top) : Within top (.finite s m e hm)

/-- Packing a number keeps the bound on its exponent. -/
lemma exponentOf_pack_le (hlow : -1075 ≤ top) (htop : top ≤ 971) (h : Within top u) :
    (exponentOf (UnpackedFloat.pack binary64 u) : ℤ) ≤ top + 1075 := by
  cases h with
  | zero s =>
    rw [exponentOf, UnpackedFloat.pack, packedZero, unpackExponent_packComponents]
    change (0 : ℤ) ≤ _
    omega
  | @finite s m e hm he =>
    have hexponent : ¬ 2 ^ 11 ≤ (e + 1023 + 52).toNat + 1 := by omega
    rw [exponentOf, UnpackedFloat.pack]
    change ((unpackExponent (if 2 ^ 11 ≤ (e + 1023 + 52).toNat + 1 then _ else _)).toNat : ℤ) ≤ _
    rw [if_neg hexponent]
    split_ifs
    · rw [unpackExponent_packComponents]
      change (((e + 1023 + 52).toNat % 2 ^ 11 : ℕ) : ℤ) ≤ _
      omega
    · rw [unpackExponent_packComponents]
      change (0 : ℤ) ≤ _
      omega

/-- What unpacking gives if the exponent is not the reserved one. -/
lemma unpack_cases {b : BitVec binary64.numBits} (h : exponentOf b ≠ 2047) :
    (∃ s, UnpackedFloat.unpack binary64 b = .zero s) ∨
      ∃ s m e hm, UnpackedFloat.unpack binary64 b = .finite s m e hm ∧ m < 2 ^ 53 ∧
        e = max (exponentOf b : ℤ) 1 - 1075 := by
  have hreserved : unpackExponent b ≠ -(BitVec.ofNat binary64.exponentBits 1) := by
    intro heq
    rw [exponentOf, heq] at h
    exact h rfl
  rw [UnpackedFloat.unpack]
  simp only
  rw [if_neg hreserved]
  split_ifs with hexponent hmantissa
  · exact .inl ⟨_, rfl⟩
  · have hzero : exponentOf b = 0 := by
      rw [exponentOf, hexponent]
      rfl
    have hpos : 0 < (unpackMantissa b).toNat :=
      Nat.pos_of_ne_zero fun hnone => hmantissa (BitVec.eq_of_toNat_eq hnone)
    refine .inr ⟨_, _, _, hpos, rfl, ?_, ?_⟩
    · exact (unpackMantissa b).isLt.trans (by decide)
    · change ((exponentOf b : ℕ) : ℤ) - (1023 + 52) + 1 = _
      omega
  · have hne : exponentOf b ≠ 0 := fun hzero => hexponent (BitVec.eq_of_toNat_eq hzero)
    have hpos : 0 < (1#1 ++ unpackMantissa b).toNat := by
      rw [BitVec.toNat_append]
      exact (by decide : 0 < 2 ^ 52).trans_le Nat.left_le_or
    refine .inr ⟨_, _, _, hpos, rfl, (1#1 ++ unpackMantissa b).isLt, ?_⟩
    change ((exponentOf b : ℕ) : ℤ) - (1023 + 52) = _
    omega

/-! ## Rounding -/

@[simp] lemma mantissa_shiftRight (em : ExtendedMantissa) (k : ℕ) :
    (em >>> k).mantissa = em.mantissa / 2 ^ k := by
  induction k with
  | zero =>
    change em.mantissa = _
    simp
  | succ k ih =>
    change (em >>> k).mantissa / 2 = _
    rw [ih, Nat.div_div_eq_div_mul, pow_succ]

lemma roundBit_shiftRight_succ (em : ExtendedMantissa) (k : ℕ) :
    (em >>> (k + 1)).roundBit = (em.mantissa / 2 ^ k % 2 != 0) := by
  change ((em >>> k).mantissa % 2 != 0) = _
  rw [mantissa_shiftRight]

/-- One is added if the first bit behind the mantissa is set, unless it is the only one and the mantissa is even. -/
lemma roundedMantissa_eq (em : ExtendedMantissa) : em.roundedMantissa =
    em.mantissa + if em.roundBit = true ∧ (em.stickyBit = true ∨ em.mantissa % 2 = 1) then 1 else 0 := by
  obtain ⟨m, roundBit, stickyBit⟩ := em
  cases roundBit <;> cases stickyBit <;>
    simp [roundedMantissa, accuracy, Accuracy.roundToNearestEven]
  split_ifs <;> omega

lemma roundedMantissa_le (em : ExtendedMantissa) :
    em.roundedMantissa ≤ em.mantissa + 1 ∧ (em.roundBit = false → em.roundedMantissa = em.mantissa) := by
  rw [roundedMantissa_eq]
  split_ifs <;> simp_all

/-- The mantissa is shifted until it has fifty-three bits, or until the exponent is the least one. -/
lemma shiftToTargetExponent_eq (m : ℕ) (e : ℤ) (accuracy : Accuracy) {k : ℕ}
    (h : k = (max ((m.log2 : ℤ) + 1 + e - 53) (-1074) - e).toNat) :
    shiftToTargetExponent binary64 m e accuracy =
      (ofMantissaAndAccuracy m accuracy >>> k, e + k) := by
  subst h
  rfl

/-- **What rounding does to the exponent.** The mantissa is shifted to its place and rounded, and the rounded
mantissa may have to be shifted once more. -/
lemma within_roundWithAccuracy (hlow : -1074 ≤ top) (s : Sign) (m : ℕ) (e : ℤ) {accuracy : Accuracy}
    {shift rounded : ℕ} (hshift : shift = (max ((m.log2 : ℤ) + 1 + e - 53) (-1074) - e).toNat)
    (hrounded : rounded = (ofMantissaAndAccuracy m accuracy >>> shift).roundedMantissa)
    (hexponent : e + shift ≤ top) (hlog : (rounded.log2 : ℤ) + 1 + (e + shift) - 53 ≤ top) :
    Within top (roundWithAccuracy binary64 s m e accuracy) := by
  have hsecond : (shiftToTargetExponent binary64 rounded (e + shift) .exact).2 ≤ top := by
    rw [shiftToTargetExponent_eq _ _ _ rfl]
    dsimp only
    omega
  rw [roundWithAccuracy, shiftToTargetExponent_eq _ _ _ hshift]
  simp only [← hrounded]
  split_ifs
  · exact .zero s
  · exact .finite s _ _ hsecond

lemma log2_le_of_lt (h : m < 2 ^ (k + 1)) : m.log2 ≤ k := by
  by_cases hm : m = 0
  · simp [hm]
  · exact Nat.lt_succ_iff.mp ((Nat.log2_lt hm).mpr h)

/-- A number below a power of two stays within the exponent of that power. -/
lemma within_of_log2_le (hlow : -1073 ≤ top) (s : Sign) {e : ℤ} (he : e ≤ top - 1)
    (h : (m.log2 : ℤ) + e ≤ top + 51) : Within top (roundWithAccuracy binary64 s m e .exact) := by
  set shift := (max ((m.log2 : ℤ) + 1 + e - 53) (-1074) - e).toNat with hshift
  set em := ofMantissaAndAccuracy m .exact >>> shift with hem
  have hmantissa : em.mantissa = m / 2 ^ shift := by
    rw [hem, mantissa_shiftRight]
    rfl
  have hlt : em.mantissa < 2 ^ 53 := by
    have hm : m < 2 ^ (m.log2 + 1) := Nat.lt_log2_self
    rw [hmantissa, Nat.div_lt_iff_lt_mul (Nat.two_pow_pos _), ← pow_add]
    exact hm.trans_le (Nat.pow_le_pow_right Nat.two_pos (by omega))
  have hrounded : em.roundedMantissa < 2 ^ 54 := by
    have := (roundedMantissa_le em).1
    omega
  have hlog := log2_le_of_lt hrounded
  exact @within_roundWithAccuracy top (by omega) s m e _ shift em.roundedMantissa hshift rfl (by omega) (by omega)

/-- The mantissa of a number that is nearer to the greatest one than to the next power of two is not rounded up to
that power. -/
lemma roundedMantissa_lt {n r : ℕ} (h : n ≤ (2 ^ 53 - 1) * 2 ^ (k + 1) + r) (hr : r < 2 ^ k) :
    (ofMantissaAndAccuracy n .exact >>> (k + 1)).roundedMantissa < 2 ^ 53 := by
  set em := ofMantissaAndAccuracy n .exact >>> (k + 1) with hem
  have hmantissa : em.mantissa = n / 2 ^ (k + 1) := by
    rw [hem, mantissa_shiftRight]
    rfl
  have hbit : em.roundBit = (n / 2 ^ k % 2 != 0) := roundBit_shiftRight_succ _ k
  obtain ⟨hle, hexact⟩ := roundedMantissa_le em
  have hpow : 2 ^ (k + 1) = 2 * 2 ^ k := by rw [pow_succ, mul_comm]
  have hdiv := Nat.div_add_mod n (2 ^ (k + 1))
  rcases lt_or_ge em.mantissa (2 ^ 53 - 1) with hlt | hge
  · omega
  · -- the rest behind the mantissa is less than a half, so nothing is added
    have hrest : n = em.mantissa * 2 ^ (k + 1) + n % 2 ^ (k + 1) := by
      rw [hmantissa, mul_comm]
      exact hdiv.symm
    have heq : em.mantissa = 2 ^ 53 - 1 := by
      by_contra hne
      have hmore : 2 ^ 53 * 2 ^ (k + 1) ≤ em.mantissa * 2 ^ (k + 1) := Nat.mul_le_mul_right _ (by omega)
      omega
    have hhalf : n / 2 ^ k = 2 * em.mantissa := by
      rw [hpow] at hrest h
      rw [heq] at hrest ⊢
      refine Nat.div_eq_of_lt_le ?_ ?_ <;> omega
    have hround : em.roundBit = false := by simp [hbit, hhalf]
    rw [hexact hround, heq]
    decide

lemma log2_shiftLeft (hm : m ≠ 0) (k : ℕ) : (m <<< k).log2 = m.log2 + k := by
  have hlow := Nat.mul_le_mul_right (2 ^ k) (Nat.log2_self_le hm)
  have hhigh := Nat.mul_lt_mul_of_pos_right (@Nat.lt_log2_self m) (Nat.two_pow_pos k)
  rw [← pow_add] at hlow hhigh
  rw [Nat.shiftLeft_eq, Nat.log2_eq_iff (mul_ne_zero hm (Nat.two_pow_pos k).ne')]
  exact ⟨hlow, by rwa [show m.log2 + k + 1 = m.log2 + 1 + k by omega]⟩

/-- Integers up to one more than the greatest stay within the greatest exponent when they are rounded. -/
lemma within_shiftLeft (s : Sign) (hzero : m ≠ 0) (hm : m ≤ greatest + 1) :
    Within 971 (roundWithAccuracy binary64 s (m <<< 53) (-53) .exact) := by
  -- the last exponent has a name, so that its power is never computed
  obtain ⟨top, htop⟩ : ∃ top : ℕ, top = 971 := ⟨_, rfl⟩
  have hm : m ≤ (2 ^ 53 - 1) * 2 ^ top + 1 := by
    rw [htop]
    exact hm
  have hone : 2 ≤ 2 ^ top := Nat.le_self_pow (by omega) 2
  have hlog : m.log2 ≤ top + 52 := by
    refine log2_le_of_lt ?_
    rw [show top + 52 + 1 = 53 + top by omega, pow_add]
    omega
  have hshifted := log2_shiftLeft hzero 53
  rcases lt_or_eq_of_le hlog with hsmall | hlast
  · exact within_of_log2_le (by omega) s (by omega) (by omega)
  · have hshift : top + 52 + 1 = (max (((m <<< 53).log2 : ℤ) + 1 + (-53) - 53) (-1074) - (-53)).toNat := by
      omega
    have hbound : m <<< 53 ≤ (2 ^ 53 - 1) * 2 ^ (top + 52 + 1) + 2 ^ 53 := by
      have hle := Nat.mul_le_mul_right (2 ^ 53) hm
      rw [Nat.shiftLeft_eq, show top + 52 + 1 = top + 53 by omega, pow_add]
      omega
    have hrounded := roundedMantissa_lt hbound (Nat.pow_lt_pow_right (by decide) (by omega))
    have hlog' := log2_le_of_lt hrounded
    exact within_roundWithAccuracy (by omega) s (m <<< 53) (-53) hshift rfl (by omega) (by omega)

/-! ## Numbers -/

lemma isFinite_of_within (h : Within 971 u) : IsFinite ⟨Float.Model.pack u⟩ := by
  rw [isFinite_iff]
  have hle : (exponentOf (UnpackedFloat.pack binary64 u) : ℤ) ≤ 971 + 1075 :=
    exponentOf_pack_le (by decide) (by decide) h
  change exponentOf (UnpackedFloat.pack binary64 u) ≠ 2047
  omega

lemma isFinite_neg (h : IsFinite x) : IsFinite (-x) := by
  rw [isFinite_iff] at h
  change IsFinite ⟨Float.Model.pack (UnpackedFloat.unpack binary64 x.toBits.toBitVec).neg⟩
  refine isFinite_of_within ?_
  have hlt : exponentOf x.toBits.toBitVec < 2048 := (unpackExponent _).isLt
  rcases unpack_cases h with ⟨s, hs⟩ | ⟨s, m, e, hm, hunpack, -, he⟩
  · rw [hs]
    exact .zero _
  · rw [hunpack]
    exact .finite _ m hm (by omega)

lemma IsFinite.isInf_eq_false (h : IsFinite x) : x.isInf = false := by
  rw [isFinite_iff] at h
  change (UnpackedFloat.unpack binary64 x.toBits.toBitVec).isInf = false
  rcases unpack_cases h with ⟨s, hs⟩ | ⟨s, m, e, hm, hunpack, -, -⟩
  · rw [hs]
    rfl
  · rw [hunpack]
    rfl

lemma IsFinite.isNaN_eq_false (h : IsFinite x) : x.isNaN = false := by
  rw [isFinite_iff] at h
  change (UnpackedFloat.unpack binary64 x.toBits.toBitVec).isNaN = false
  rcases unpack_cases h with ⟨s, hs⟩ | ⟨s, m, e, hm, hunpack, -, -⟩
  · rw [hs]
    rfl
  · rw [hunpack]
    rfl

end CodeAudit.Number

namespace CodeAudit.Datum

/-- A double that is a number has an integer part. -/
lemma exists_floatToInt {x : Float} (h : Number.IsFinite x) : ∃ n, floatToInt x = .ok n := by
  obtain ⟨n, hn⟩ := h.exists_truncate
  exact ⟨n, by rw [floatToInt, hn]⟩

/-- An integer part, and one more than it, is not too great. -/
lemma natAbs_le_of_floatToInt {x : Float} {n : ℤ} (h : floatToInt x = .ok n) : n.natAbs ≤ Number.greatest := by
  unfold floatToInt at h
  split at h
  · rename_i k hk
    obtain rfl := Except.ok.inj h
    exact Number.natAbs_le_greatest hk
  · cases h
  · cases h

end CodeAudit.Datum
