import Mathlib
import CodeAudit.Proofs.Number.Exact

/-!
# Rounding keeps the order

An integer below `2 ^ 53` is a double. A greater one is shifted until fifty-three bits are left, and rounded by the
bits behind them. Of two integers the greater one never becomes the lesser double.

## Main definitions

* `Number.nearest` — the integer that an integer is rounded to.

## Main results

* `Number.nearest_mono` — rounding keeps the order.
* `Number.le_of_truncate_ofInt` — and so do the integer parts of the doubles.
-/

namespace CodeAudit.Number

open Float.Model UnpackedFloat ExtendedMantissa

variable {m n : ℕ}

/-- An integer that is shifted by some bits and rounded. -/
def rounded (m k : ℕ) : ℕ :=
  (ofMantissaAndAccuracy m .exact >>> k).roundedMantissa

/-- The integer that an integer is rounded to. -/
def nearest (m : ℕ) : ℕ :=
  if m < 2 ^ 53 then m else rounded (m <<< 53) (m.log2 + 1) * 2 ^ (m.log2 - 52)

/-- Some bit behind the mantissa is set exactly if the shift loses something. -/
lemma bits_shiftRight (m k : ℕ) :
    ((ofMantissaAndAccuracy m .exact >>> k).roundBit ||
      (ofMantissaAndAccuracy m .exact >>> k).stickyBit) = (m % 2 ^ k != 0) := by
  induction k with
  | zero =>
    rw [pow_zero, Nat.mod_one]
    rfl
  | succ k ih =>
    rw [roundBit_shiftRight_succ]
    change ((m / 2 ^ k % 2 != 0) || ((ofMantissaAndAccuracy m .exact >>> k).roundBit ||
      (ofMantissaAndAccuracy m .exact >>> k).stickyBit)) = _
    rw [ih, Nat.mod_pow_succ]
    rcases Nat.mod_two_eq_zero_or_one (m / 2 ^ k) with hbit | hbit <;> simp [hbit]

lemma rounded_succ (m k : ℕ) : rounded m (k + 1) = m / 2 ^ k / 2 +
    if m / 2 ^ k % 2 = 1 ∧ (m % 2 ^ k ≠ 0 ∨ m / 2 ^ k / 2 % 2 = 1) then 1 else 0 := by
  have hmantissa : (ofMantissaAndAccuracy m .exact >>> (k + 1)).mantissa = m / 2 ^ k / 2 := by
    rw [mantissa_shiftRight, Nat.div_div_eq_div_mul, pow_succ]
    rfl
  have hround : (ofMantissaAndAccuracy m .exact >>> (k + 1)).roundBit = (m / 2 ^ k % 2 != 0) :=
    roundBit_shiftRight_succ _ k
  have hsticky : (ofMantissaAndAccuracy m .exact >>> (k + 1)).stickyBit = (m % 2 ^ k != 0) :=
    bits_shiftRight m k
  simp only [rounded, roundedMantissa_eq, hmantissa, hround, hsticky, bne_iff_ne, Nat.mod_two_ne_zero]

/-- **Rounding by the same number of bits keeps the order.** Where the shifted integers are equal, the rests decide. -/
lemma rounded_mono (h : m ≤ n) (k : ℕ) : rounded m (k + 1) ≤ rounded n (k + 1) := by
  have hquotient : m / 2 ^ k ≤ n / 2 ^ k := Nat.div_le_div_right h
  have hrest : m / 2 ^ k = n / 2 ^ k → m % 2 ^ k ≤ n % 2 ^ k := by
    intro heq
    have hm := Nat.div_add_mod m (2 ^ k)
    have hn := Nat.div_add_mod n (2 ^ k)
    rw [heq] at hm
    omega
  rw [rounded_succ, rounded_succ]
  split_ifs <;> omega

/-- A great integer is rounded to one between two powers of two. -/
lemma bounds_rounded (h : 2 ^ 53 ≤ m) :
    2 ^ 52 ≤ rounded (m <<< 53) (m.log2 + 1) ∧ rounded (m <<< 53) (m.log2 + 1) ≤ 2 ^ 53 := by
  have hlow := Nat.log2_self_le (n := m) (by omega)
  have hhigh : m < 2 ^ (m.log2 + 1) := Nat.lt_log2_self
  have hlog : 53 ≤ m.log2 := (Nat.le_log2 (by omega)).mpr h
  have hshift : m <<< 53 / 2 ^ m.log2 = m / 2 ^ (m.log2 - 53) := by
    rw [Nat.shiftLeft_eq, ← Nat.mul_div_mul_right _ (2 ^ (m.log2 - 53)) (Nat.two_pow_pos 53), ← pow_add,
      Nat.sub_add_cancel hlog]
  have hbits : 2 ^ 53 ≤ m / 2 ^ (m.log2 - 53) ∧ m / 2 ^ (m.log2 - 53) < 2 ^ 54 := by
    rw [Nat.le_div_iff_mul_le (Nat.two_pow_pos _), Nat.div_lt_iff_lt_mul (Nat.two_pow_pos _), ← pow_add, ← pow_add]
    rw [show 53 + (m.log2 - 53) = m.log2 by omega, show 54 + (m.log2 - 53) = m.log2 + 1 by omega]
    exact ⟨hlow, hhigh⟩
  rw [rounded_succ, hshift]
  split_ifs <;> omega

/-- A great integer is rounded to one between the powers of two on its sides. -/
lemma bounds_nearest (h : 2 ^ 53 ≤ m) : 2 ^ m.log2 ≤ nearest m ∧ nearest m ≤ 2 ^ (m.log2 + 1) := by
  have hlog : 53 ≤ m.log2 := (Nat.le_log2 (by omega)).mpr h
  obtain ⟨hlow, hhigh⟩ := bounds_rounded h
  rw [nearest, if_neg (by omega)]
  constructor
  · calc 2 ^ m.log2 = 2 ^ 52 * 2 ^ (m.log2 - 52) := by rw [← pow_add, show 52 + (m.log2 - 52) = m.log2 by omega]
      _ ≤ _ := Nat.mul_le_mul_right _ hlow
  · calc _ ≤ 2 ^ 53 * 2 ^ (m.log2 - 52) := Nat.mul_le_mul_right _ hhigh
      _ = 2 ^ (m.log2 + 1) := by rw [← pow_add, show 53 + (m.log2 - 52) = m.log2 + 1 by omega]

/-- **Rounding keeps the order**: integers of the same number of bits are rounded by the same number of bits, and
between two others there is a power of two. -/
theorem nearest_mono : Monotone nearest := by
  intro m n h
  rcases lt_or_ge n (2 ^ 53) with hn | hn
  · rwa [nearest, nearest, if_pos hn, if_pos (by omega)]
  have hlow := (bounds_nearest hn).1
  rcases lt_or_ge m (2 ^ 53) with hm | hm
  · calc nearest m = m := if_pos hm
      _ ≤ 2 ^ 53 := hm.le
      _ ≤ 2 ^ n.log2 := Nat.pow_le_pow_right (by decide) ((Nat.le_log2 (by omega)).mpr hn)
      _ ≤ nearest n := hlow
  have hlog : m.log2 ≤ n.log2 := (Nat.le_log2 (by omega)).mpr ((Nat.log2_self_le (by omega)).trans h)
  rcases hlog.lt_or_eq with hless | heq
  · calc nearest m ≤ 2 ^ (m.log2 + 1) := (bounds_nearest hm).2
      _ ≤ 2 ^ n.log2 := Nat.pow_le_pow_right (by decide) hless
      _ ≤ nearest n := hlow
  · rw [nearest, nearest, if_neg (by omega), if_neg (by omega), heq]
    refine Nat.mul_le_mul_right _ (rounded_mono ?_ _)
    rw [Nat.shiftLeft_eq, Nat.shiftLeft_eq]
    exact Nat.mul_le_mul_right _ h

/-- What is rounded up to the next power of two is shifted once more. -/
lemma exists_pack_nearest (h : 2 ^ 53 ≤ m) : ∃ a e : ℕ, ∃ hlow : 2 ^ 52 ≤ a, a < 2 ^ 53 ∧ a * 2 ^ e = nearest m ∧
    ofInt m = ⟨Float.Model.pack (.finite .positive a e (by omega))⟩ := by
  have hlog : 53 ≤ m.log2 := (Nat.le_log2 (by omega)).mpr h
  obtain ⟨hlow, hhigh⟩ := bounds_rounded h
  obtain ⟨a, k, ha, ha', hk, hrounded⟩ : ∃ a k, 2 ^ 52 ≤ a ∧ a < 2 ^ 53 ∧ k ≤ 1 ∧
      rounded (m <<< 53) (m.log2 + 1) = a * 2 ^ k := by
    rcases hhigh.lt_or_eq with hless | heq
    · exact ⟨_, 0, hlow, hless, by decide, (mul_one _).symm⟩
    · exact ⟨2 ^ 52, 1, le_rfl, by decide, le_rfl, heq⟩
  refine ⟨a, m.log2 - 52 + k, ha, ha', ?_, ?_⟩
  · rw [nearest, if_neg (by omega), hrounded, mul_assoc, ← pow_add, Nat.add_comm]
  have hshift : m.log2 + 1 = (max (((m <<< 53).log2 : ℤ) + 1 + (-53) - 53) (-1074) - (-53)).toNat := by
    rw [log2_shiftLeft (by omega)]
    omega
  have hsecond := shiftToTargetExponent_exact (e := (m.log2 - 52 + k : ℕ)) ha ha' (by omega) k
  rw [← hrounded, show ((m.log2 - 52 + k : ℕ) : ℤ) - k = -53 + (m.log2 + 1 : ℕ) by omega] at hsecond
  rw [ofInt_eq_pack_of_ge h, roundWithAccuracy, shiftToTargetExponent_eq _ _ _ hshift]
  rw [rounded] at hsecond
  simp only [hsecond]
  rw [dif_neg (by omega)]

/-- What can be told of the integer part has an exponent that doubles can have. -/
lemma le_of_truncate_pack {s : Sign} {e : ℤ} {hm : 0 < m} {a : ℤ}
    (h : truncate ⟨Float.Model.pack (.finite s m e hm)⟩ = .ok a) : e ≤ 971 := by
  by_contra hgreat
  have hfinite : IsFinite ⟨Float.Model.pack (.finite s m e hm)⟩ := by
    unfold truncate at h
    split at h
    · cases h
    · cases h
    · exact ⟨_, _, _, by assumption⟩
  refine (isFinite_iff _).mp hfinite ?_
  change exponentOf (UnpackedFloat.pack Format.binary64 (.finite s m e hm)) = 2047
  rw [exponentOf, UnpackedFloat.pack]
  change (unpackExponent (if 2 ^ 11 ≤ (e + 1023 + 52).toNat + 1 then _ else _)).toNat = _
  rw [if_pos (by omega), packedInfinity, unpackExponent_packComponents]
  rfl

/-- **The integer part of the double of an integer is what the integer is rounded to.** -/
lemma eq_nearest_of_truncate_ofInt {a : ℤ} (h : truncate (ofInt m) = .ok a) : a = nearest m := by
  rcases lt_or_ge m (2 ^ 53) with hm | hm
  · rw [nearest, if_pos hm]
    exact Except.ok.inj (h.symm.trans (truncate_ofInt hm))
  · obtain ⟨b, e, hlow, hhigh, heq, hpack⟩ := exists_pack_nearest hm
    rw [hpack] at h
    rw [truncate_pack .positive hlow hhigh (by omega) (le_of_truncate_pack h)] at h
    rw [← Except.ok.inj h, ← heq]
    simp [quotient]

/-- **The integer parts of the doubles of integers have the order of the integers.** -/
theorem le_of_truncate_ofInt {a b : ℤ} (h : m ≤ n) (hm : truncate (ofInt m) = .ok a) (hn : truncate (ofInt n) = .ok b) :
    a ≤ b := by
  rw [eq_nearest_of_truncate_ofInt hm, eq_nearest_of_truncate_ofInt hn]
  exact Int.ofNat_le.mpr (nearest_mono h)

end CodeAudit.Number
