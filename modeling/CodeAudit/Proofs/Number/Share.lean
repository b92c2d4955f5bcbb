import CodeAudit.Proofs.Number.Order

/-!
# Small integers and shares

Small integers are added, and divided by one, without loss, and they are in the order of their doubles. The quotient of
such an integer by one that is not less is a share: a double that is not negative and at most one. So is the product of
two shares, for rounding never leads above one.

## Main definitions

* `Number.partsOf` — the parts of a small integer.
* `Number.IsShare` — a double that is not negative and at most one.

## Main results

* `Number.rank_ofInt_lt` — integers are in the order of their doubles.
* `Number.isShare_div`, `Number.isShare_mul` — quotients and products.
-/

namespace CodeAudit.Number

open Float.Model UnpackedFloat Format

variable {m n : ℕ} {u : UnpackedFloat}

/-! ## Integers -/

/-- The parts of a small integer. -/
def partsOf (m : ℕ) : UnpackedFloat :=
  if h : 0 < m then .finite .positive (m * 2 ^ (52 - m.log2)) (-(52 - m.log2 : ℕ) : ℤ) (by positivity)
  else .zero .positive

lemma partsOf_pos (h : 0 < m) :
    partsOf m = .finite .positive (m * 2 ^ (52 - m.log2)) (-(52 - m.log2 : ℕ) : ℤ) (by positivity) := by
  rw [partsOf, dif_pos h]

/-- **A small integer as a double** is packed from its parts, and they are unpacked again. -/
lemma ofInt_parts (hm : m < 2 ^ 53) :
    ofInt m = ⟨Float.Model.pack (partsOf m)⟩ ∧ (ofInt m).toModel.unpack = partsOf m := by
  rcases Nat.eq_zero_or_pos m with rfl | hpos
  · exact ⟨rfl, rfl⟩
  · rw [partsOf_pos hpos]
    exact ⟨ofInt_eq_pack hpos hm, ofInt_eq hpos hm⟩

/-- **Integers are in the order of their doubles.** -/
lemma rank_ofInt_lt (h : m < n) (hn : n < 2 ^ 53) : rank (ofInt m) < rank (ofInt n) := by
  have hpos : 0 < n := by omega
  rw [rank, rank, (ofInt_parts (h.trans hn)).2, (ofInt_parts hn).2, partsOf_pos hpos]
  rcases Nat.eq_zero_or_pos m with rfl | hm
  · exact Prod.Lex.toLex_lt_toLex.mpr (.inl Int.zero_lt_one)
  · have hlog : m.log2 ≤ n.log2 := (Nat.le_log2 hpos.ne').mpr ((Nat.log2_self_le hm.ne').trans h.le)
    have hbound : n.log2 ≤ 52 := log2_le_of_lt hn
    rw [partsOf_pos hm]
    refine Prod.Lex.toLex_lt_toLex.mpr (.inr ⟨rfl, Prod.Lex.toLex_lt_toLex.mpr ?_⟩)
    rcases hlog.lt_or_eq with hless | heq
    · exact .inl (by simp only; omega)
    · refine .inr ⟨by simp only [heq], ?_⟩
      change ((m * 2 ^ (52 - m.log2) : ℕ) : ℤ) < ((n * 2 ^ (52 - n.log2) : ℕ) : ℤ)
      rw [heq]
      exact_mod_cast Nat.mul_lt_mul_of_pos_right h (Nat.two_pow_pos _)

/-- **Small integers are added without loss.** -/
lemma ofInt_add (h : m + n < 2 ^ 53) : ofInt m + ofInt n = ofInt (m + n : ℕ) := by
  change (⟨Float.Model.pack (UnpackedFloat.add binary64 (ofInt m).toModel.unpack (ofInt n).toModel.unpack)⟩ :
    Float) = _
  rw [(ofInt_parts (show m < 2 ^ 53 by omega)).2, (ofInt_parts (show n < 2 ^ 53 by omega)).2, (ofInt_parts h).1]
  refine congrArg (fun u => (⟨Float.Model.pack u⟩ : Float)) ?_
  rcases Nat.eq_zero_or_pos m with rfl | hm
  · rw [zero_add, partsOf, dif_neg (lt_irrefl 0)]
    rcases Nat.eq_zero_or_pos n with rfl | hn
    · rfl
    · rw [partsOf_pos hn]
      rfl
  rcases Nat.eq_zero_or_pos n with rfl | hn
  · rw [add_zero, partsOf_pos hm]
    rfl
  -- both mantissas are shifted to the lesser exponent
  set j := max (52 - m.log2) (52 - n.log2) with hj
  have hleast : min (-(52 - m.log2 : ℕ) : ℤ) (-(52 - n.log2 : ℕ) : ℤ) = -(j : ℤ) := by omega
  have hshift : ∀ k, 52 - k ≤ j → (-(52 - k : ℕ) - -(j : ℤ)).toNat = j - (52 - k) := by omega
  have hmantissa : ∀ i k, 52 - k ≤ j → (i * 2 ^ (52 - k)) <<< (j - (52 - k)) = i * 2 ^ j := by
    intro i k hk
    rw [Nat.shiftLeft_eq, mul_assoc, ← pow_add, Nat.add_sub_cancel' hk]
  rw [partsOf_pos (Nat.add_pos_left hm n), ← normalize_eq (Nat.add_pos_left hm n) h j, partsOf_pos hm, partsOf_pos hn,
    UnpackedFloat.add]
  simp only [decreaseExponent, hleast, hshift _ (le_max_left _ _), hshift _ (le_max_right _ _),
    hmantissa _ _ (le_max_left _ _), hmantissa _ _ (le_max_right _ _)]
  rw [add_mul, Nat.cast_add]
  rfl

/-- Before rounding, a quotient of mantissas of fifty-three bits has fifty-three bits behind the point. -/
lemma divCore_eq {e f : ℤ} (hm : 2 ^ 52 ≤ m) (hm' : m < 2 ^ 53) (hn : 2 ^ 52 ≤ n) (hn' : n < 2 ^ 53)
    (hlow : -1021 ≤ e - f) :
    divCore binary64 m e n f = (m * 2 ^ 53 / n, e - f - 53, accuracyOfFraction (m * 2 ^ 53 % n) n) := by
  have htarget : min (e - f) (binary64.targetExponent (totalExponent m e - totalExponent n f)) = e - f - 53 := by
    change min (e - f) (max ((m.log2 + 1 + e) - (n.log2 + 1 + f) - 53) (-1074)) = _
    rw [log2_eq hm hm', log2_eq hn hn']
    omega
  rw [divCore, htarget, sub_sub_cancel, Nat.shiftLeft_eq]
  rfl

/-- A small integer is divided by one without loss. -/
lemma ofInt_div_one (hm : m < 2 ^ 53) : ofInt m / ofInt 1 = ofInt m := by
  change (⟨Float.Model.pack (UnpackedFloat.div binary64 (ofInt m).toModel.unpack (ofInt 1).toModel.unpack)⟩ :
    Float) = _
  have hone : (ofInt 1).toModel.unpack = .finite .positive (2 ^ 52) (-52) (by decide) := rfl
  rw [(ofInt_parts hm).2, hone, (ofInt_parts hm).1]
  refine congrArg (fun u => (⟨Float.Model.pack u⟩ : Float)) ?_
  rcases Nat.eq_zero_or_pos m with rfl | hpos
  · rfl
  obtain ⟨hlow, hhigh⟩ := bounds_mantissa hpos hm
  set k := 52 - m.log2 with hk
  have hcore := divCore_eq (e := -(k : ℤ)) (f := -52) hlow hhigh (le_refl (2 ^ 52)) (by decide) (by omega)
  have hquotient : m * 2 ^ k * 2 ^ 53 / 2 ^ 52 = m * 2 ^ k * 2 ^ 1 ∧ m * 2 ^ k * 2 ^ 53 % 2 ^ 52 = 0 := by omega
  rw [hquotient.1, hquotient.2, show -(k : ℤ) - -52 - 53 = -(k : ℤ) - (1 : ℕ) by omega] at hcore
  rw [partsOf_pos hpos, UnpackedFloat.div, ← hk, hcore]
  exact roundWithAccuracy_exact .positive hlow hhigh (by omega) 1

/-! ## Signs -/

/-- The parts that are unpacked from what was packed. -/
abbrev stored (u : UnpackedFloat) : UnpackedFloat :=
  UnpackedFloat.unpack binary64 (UnpackedFloat.pack binary64 u)

/-- Parts of a number that is not negative. -/
def Nonnegative (u : UnpackedFloat) : Prop :=
  u = .zero .positive ∨ ∃ m e hm, u = .finite .positive m e hm

lemma nonnegative_partsOf (m : ℕ) : Nonnegative (partsOf m) := by
  unfold partsOf
  split_ifs
  · exact .inr ⟨_, _, _, rfl⟩
  · exact .inl rfl

lemma nonnegative_roundWithAccuracy (m : ℕ) (e : ℤ) (accuracy : Accuracy) :
    Nonnegative (roundWithAccuracy binary64 .positive m e accuracy) := by
  unfold roundWithAccuracy
  simp only
  split_ifs with hzero
  · exact .inl rfl
  · exact .inr ⟨_, _, Nat.pos_of_ne_zero hzero, rfl⟩

/-- Unpacking gives no negative number back if none was packed. -/
lemma Nonnegative.unpack_pack (h : Nonnegative u) :
    (∀ s, stored u = .zero s → s = .positive) ∧ ∀ s m e hm, stored u = .finite s m e hm → s = .positive := by
  obtain ⟨exponent, mantissa, hpack⟩ : ∃ exponent mantissa, UnpackedFloat.pack binary64 u =
      packComponents binary64 .positive exponent mantissa := by
    rcases h with rfl | ⟨m, e, hm, rfl⟩
    · exact ⟨_, _, rfl⟩
    · rw [UnpackedFloat.pack]
      simp only
      split_ifs <;> exact ⟨_, _, rfl⟩
  rw [stored, hpack, UnpackedFloat.unpack]
  simp only [unpackSign_packComponents, Sign.ofBitVec_toBitVec]
  split_ifs <;> simp +contextual [eq_comm]

/-- **A count as a double** is not negative, however great it is. -/
lemma exists_nonnegative (n : ℕ) : ∃ u, ofInt n = ⟨Float.Model.pack u⟩ ∧ Nonnegative u := by
  rcases lt_or_ge n (2 ^ 53) with hsmall | hgreat
  · exact ⟨partsOf n, (ofInt_parts hsmall).1, nonnegative_partsOf n⟩
  · exact ⟨_, ofInt_eq_pack_of_ge hgreat, nonnegative_roundWithAccuracy _ _ _⟩

lemma isNaN_ofInt (n : ℕ) : (ofInt n).isNaN = false := by
  obtain ⟨u, hu, hsign⟩ := exists_nonnegative n
  rw [hu]
  refine isNaN_pack ?_
  rcases hsign with rfl | ⟨m, e, hm, rfl⟩ <;> rfl

/-- The integer part of a count is not negative. -/
lemma nonneg_of_truncate_ofInt {k : ℤ} (h : truncate (ofInt n) = .ok k) : 0 ≤ k := by
  obtain ⟨u, hu, hsign⟩ := exists_nonnegative n
  obtain ⟨hzero, hfinite⟩ := hsign.unpack_pack
  have hform := ofFloat_eq ⟨Float.Model.pack u⟩
  change _ = formOf (stored u) at hform
  rw [truncate, hu, hform] at h
  cases hunpack : stored u with
  | notANumber | infinity s =>
    rw [hunpack] at h
    cases h
  | zero s =>
    obtain rfl := hzero s hunpack
    rw [hunpack] at h
    rw [← Except.ok.inj h]
    exact Int.natCast_nonneg _
  | finite s m e hm =>
    obtain rfl := hfinite s m e hm hunpack
    rw [hunpack] at h
    rw [← Except.ok.inj h]
    exact Int.natCast_nonneg _

/-! ## Shares -/

/-- The parts of a double that is not negative and at most one: zero, one, or less than one. -/
inductive IsShare : UnpackedFloat → Prop
  | zero : IsShare (.zero .positive)
  | below {m : ℕ} {e : ℤ} (hm : 0 < m) (hbits : m < 2 ^ 53) (he : e ≤ -53) : IsShare (.finite .positive m e hm)
  | one : IsShare (.finite .positive (2 ^ 52) (-52) (by decide))

/-- **A share is a number between zero and one.** -/
lemma IsShare.bounds (h : IsShare u) : u.isNaN = false ∧ rank 0 ≤ rankOf u ∧ rankOf u ≤ rank 1 := by
  have hzero : rank 0 = toLex (0, toLex (0, 0)) := rfl
  have hone : rank 1 = toLex (1, toLex (-52, 2 ^ 52)) := rfl
  have hsign : ∀ a b : ℤ ×ₗ ℤ, (toLex (0, a) : ℤ ×ₗ ℤ ×ₗ ℤ) ≤ toLex (1, b) :=
    fun a b => Prod.Lex.toLex_le_toLex.mpr (.inl Int.zero_lt_one)
  rw [hzero, hone]
  cases h with
  | zero => exact ⟨rfl, le_rfl, hsign _ _⟩
  | below hm hbits he =>
    refine ⟨rfl, hsign _ _, Prod.Lex.toLex_le_toLex.mpr (.inr ⟨rfl, Prod.Lex.toLex_le_toLex.mpr (.inl ?_)⟩)⟩
    exact he.trans_lt (by decide)
  | one => exact ⟨rfl, hsign _ _, le_rfl⟩

/-- A number of the exponent of one half or less is a share when it is packed. -/
lemma isShare_of_within (h : Within (-53) u) (hsign : Nonnegative u) : IsShare (stored u) := by
  have hle := exponentOf_pack_le (by decide) (by decide) h
  obtain ⟨hzero, hfinite⟩ := hsign.unpack_pack
  rcases unpack_cases (b := UnpackedFloat.pack binary64 u) (by omega) with
    ⟨s, hs⟩ | ⟨s, m, e, hm, hunpack, hlt, he⟩
  · obtain rfl := hzero s hs
    rw [stored, hs]
    exact .zero
  · obtain rfl := hfinite s m e hm hunpack
    rw [stored, hunpack]
    exact .below hm hlt (by omega)

lemma mantissa_ofMantissaAndAccuracy (m : ℕ) (accuracy : Accuracy) :
    (ExtendedMantissa.ofMantissaAndAccuracy m accuracy).mantissa = m := by
  rcases accuracy with _ | (_ | _ | _) <;> rfl

/-- **Rounding does not lead above one.** -/
lemma isShare_roundWithAccuracy {k : ℕ} (hk : 53 ≤ k) (hm : m < 2 ^ k) (accuracy : Accuracy) :
    IsShare (stored (roundWithAccuracy binary64 .positive m (-(k : ℤ)) accuracy)) := by
  have hlog : m.log2 ≤ k - 1 := log2_le_of_lt (by rwa [Nat.sub_add_cancel (by omega)])
  set shift := (max ((m.log2 : ℤ) + 1 + -(k : ℤ) - 53) (-1074) - -(k : ℤ)).toNat with hshift
  set em := ExtendedMantissa.ofMantissaAndAccuracy m accuracy >>> shift with hem
  have hmantissa : em.mantissa < 2 ^ 53 := by
    have hlt : m < 2 ^ (m.log2 + 1) := Nat.lt_log2_self
    rw [hem, mantissa_shiftRight, mantissa_ofMantissaAndAccuracy, Nat.div_lt_iff_lt_mul (Nat.two_pow_pos _), ← pow_add]
    exact hlt.trans_le (Nat.pow_le_pow_right Nat.two_pos (by omega))
  have hrounded : em.roundedMantissa ≤ 2 ^ 53 := (roundedMantissa_le em).1.trans hmantissa
  have hsign := nonnegative_roundWithAccuracy m (-(k : ℤ)) accuracy
  by_cases hlast : em.roundedMantissa = 2 ^ 53 ∧ -(k : ℤ) + shift = -53
  · -- the mantissa is rounded up to the next power of two, which is one
    have hone : roundWithAccuracy binary64 .positive m (-(k : ℤ)) accuracy =
        .finite .positive (2 ^ 52) (-52) (by decide) := by
      rw [roundWithAccuracy, shiftToTargetExponent_eq _ _ _ hshift, ← hem, hlast.2]
      simp only [hlast.1]
      rfl
    rw [hone]
    exact .one
  · refine isShare_of_within ?_ hsign
    have hlog' : (em.roundedMantissa.log2 : ℤ) + 1 + (-(k : ℤ) + shift) - 53 ≤ -53 := by
      rcases hrounded.lt_or_eq with hless | heq
      · have := log2_le_of_lt hless
        omega
      · have hpow : em.roundedMantissa.log2 = 53 := by rw [heq, Nat.log2_two_pow]
        have := not_and.mp hlast heq
        omega
    exact within_roundWithAccuracy (by decide) .positive m _ hshift rfl (by omega) hlog'

/-- **The quotient of a small integer by one that is not less is a share.** -/
lemma isShare_div (h : m ≤ n) (hn : 0 < n) (hbound : n < 2 ^ 53) : IsShare (ofInt m / ofInt n).toModel.unpack := by
  change IsShare (stored (UnpackedFloat.div binary64 (ofInt m).toModel.unpack (ofInt n).toModel.unpack))
  rw [(ofInt_parts (h.trans_lt hbound)).2, (ofInt_parts hbound).2, partsOf_pos hn]
  rcases Nat.eq_zero_or_pos m with rfl | hm
  · rw [show partsOf 0 = .zero .positive from rfl, UnpackedFloat.div]
    exact .zero
  have hlog : m.log2 ≤ n.log2 := (Nat.le_log2 hn.ne').mpr ((Nat.log2_self_le hm.ne').trans h)
  have hlog' : n.log2 ≤ 52 := log2_le_of_lt hbound
  obtain ⟨hlow, hhigh⟩ := bounds_mantissa hm (h.trans_lt hbound)
  obtain ⟨hlow', hhigh'⟩ := bounds_mantissa hn hbound
  have hcore := divCore_eq (e := -(52 - m.log2 : ℕ)) (f := -(52 - n.log2 : ℕ)) hlow hhigh hlow' hhigh' (by omega)
  rw [partsOf_pos hm, UnpackedFloat.div, hcore]
  rcases h.lt_or_eq with hless | rfl
  · have hquotient : m * 2 ^ (52 - m.log2) * 2 ^ 53 / (n * 2 ^ (52 - n.log2)) < 2 ^ (53 + (n.log2 - m.log2)) := by
      have hpow : 2 ^ (53 + (n.log2 - m.log2)) * (n * 2 ^ (52 - n.log2)) = n * 2 ^ (52 - m.log2) * 2 ^ 53 := by
        rw [show 52 - m.log2 = (52 - n.log2) + (n.log2 - m.log2) by omega, pow_add, pow_add]
        ring
      rw [Nat.div_lt_iff_lt_mul (by positivity), hpow]
      gcongr
    have hexponent : (-(52 - m.log2 : ℕ) - -(52 - n.log2 : ℕ) - 53 : ℤ) = -((53 + (n.log2 - m.log2) : ℕ) : ℤ) := by omega
    rw [hexponent]
    exact isShare_roundWithAccuracy (by omega) hquotient _
  · have hself : m * 2 ^ (52 - m.log2) * 2 ^ 53 / (m * 2 ^ (52 - m.log2)) = 2 ^ 52 * 2 ^ 1 :=
      Nat.mul_div_cancel_left _ (by positivity)
    have hrest : m * 2 ^ (52 - m.log2) * 2 ^ 53 % (m * 2 ^ (52 - m.log2)) = 0 := Nat.mul_mod_right _ _
    rw [hself, hrest, show (-(52 - m.log2 : ℕ) - -(52 - m.log2 : ℕ) - 53 : ℤ) = -52 - 1 by omega]
    change IsShare (stored (roundWithAccuracy binary64 .positive (2 ^ 52 * 2 ^ 1) (-52 - 1) .exact))
    rw [roundWithAccuracy_one]
    exact .one

/-- **The product of shares is a share.** -/
lemma isShare_mul {x y : Float} (hx : IsShare x.toModel.unpack) (hy : IsShare y.toModel.unpack) :
    IsShare (x * y).toModel.unpack := by
  change IsShare (stored (UnpackedFloat.mul binary64 x.toModel.unpack y.toModel.unpack))
  generalize x.toModel.unpack = u at hx
  generalize y.toModel.unpack = v at hy
  -- a product with a factor below one is rounded from a number below one
  have hround : ∀ {m n j : ℕ} {e f : ℤ} (hm : 0 < m) (hn : 0 < n), 53 ≤ j → m * n < 2 ^ j → e + f ≤ -j →
      IsShare (stored (UnpackedFloat.mul binary64 (.finite .positive m e hm) (.finite .positive n f hn))) := by
    intro m n j e f hm hn hj hless hsum
    have hless : m * n < 2 ^ (-(e + f)).toNat := hless.trans_le (Nat.pow_le_pow_right Nat.two_pos (by omega))
    have hshare := isShare_roundWithAccuracy (by omega) hless .exact
    rwa [show -((-(e + f)).toNat : ℤ) = e + f by omega] at hshare
  cases hx with
  | zero =>
    cases hy <;>
    · rw [UnpackedFloat.mul]
      exact .zero
  | below hm hbits he =>
    cases hy with
    | zero =>
      rw [UnpackedFloat.mul]
      exact .zero
    | below hn hbits' hf =>
      refine hround hm hn (j := 106) (by decide) ?_ (by omega)
      exact (Nat.mul_lt_mul'' hbits hbits').trans_eq (by decide)
    | one =>
      refine hround hm _ (j := 105) (by decide) ?_ (by omega)
      exact (Nat.mul_lt_mul_of_pos_right hbits (Nat.two_pow_pos 52)).trans_eq (by decide)
  | one =>
    cases hy with
    | zero => exact .zero
    | below hn hbits' hf =>
      refine hround _ hn (j := 105) (by decide) ?_ (by omega)
      exact (Nat.mul_lt_mul_of_pos_left hbits' (Nat.two_pow_pos 52)).trans_eq (by decide)
    | one => exact .one

end CodeAudit.Number
