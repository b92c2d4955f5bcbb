import CodeAudit.Proofs.Number.Exact

/-!
# The order of doubles

Doubles are compared by sign, exponent and mantissa. Nothing is comparable with not-a-number; all other doubles are in
a linear order, in which the two zeros have one rank.

## Main definitions

* `Number.rank` — the rank of a double.

## Main results

* `Number.lt_iff_rank_lt`, `Number.beq_eq` — doubles are compared as their ranks are.
* `Datum.less_float` — the same for values that are doubles.
-/

namespace CodeAudit.Number

open Float.Model UnpackedFloat

variable {x y : Float}

/-- The rank of a double taken apart: infinities at the ends, zero in the middle, and all others by exponent and
mantissa. The rank of not-a-number does not matter. -/
def rankOf : UnpackedFloat → ℤ ×ₗ ℤ ×ₗ ℤ
  | .notANumber => toLex (0, toLex (0, 0))
  | .infinity .negative => toLex (-2, toLex (0, 0))
  | .finite .negative m e _ => toLex (-1, toLex (-e, -m))
  | .zero _ => toLex (0, toLex (0, 0))
  | .finite .positive m e _ => toLex (1, toLex (e, m))
  | .infinity .positive => toLex (2, toLex (0, 0))

/-- The rank of a double. -/
def rank (x : Float) : ℤ ×ₗ ℤ ×ₗ ℤ :=
  rankOf x.toModel.unpack

/-- Exponents go before mantissas. -/
lemma then_eq_lt_iff (e₁ e₂ : ℤ) (m₁ m₂ : ℕ) :
    (compare e₁ e₂).then (compare m₁ m₂) = .lt ↔ e₁ < e₂ ∨ e₁ = e₂ ∧ m₁ < m₂ := by
  rcases lt_trichotomy e₁ e₂ with h | rfl | h
  · simp [compare_lt_iff_lt.mpr h, h]
  · simp [compare_lt_iff_lt]
  · simp [compare_gt_iff_gt.mpr h, h.not_gt, h.ne']

lemma then_eq_gt_iff (e₁ e₂ : ℤ) (m₁ m₂ : ℕ) :
    (compare e₁ e₂).then (compare m₁ m₂) = .gt ↔ e₂ < e₁ ∨ e₁ = e₂ ∧ m₂ < m₁ := by
  rcases lt_trichotomy e₁ e₂ with h | rfl | h
  · simp [compare_lt_iff_lt.mpr h, h.not_gt, h.ne]
  · simp [compare_gt_iff_gt]
  · simp [compare_gt_iff_gt.mpr h, h]

/-- **Doubles taken apart are compared as their ranks are.** -/
lemma compare_cases {a b : UnpackedFloat} (ha : a.isNaN = false) (hb : b.isNaN = false) :
    ∃ o, a.compare b = some o ∧ (o = .lt ↔ rankOf a < rankOf b) ∧ (o = .gt ↔ rankOf b < rankOf a) := by
  have hsigns : compare Sign.negative Sign.positive = .lt ∧ compare Sign.positive Sign.negative = .gt ∧
      ∀ s : Sign, compare s s = .eq := ⟨rfl, rfl, fun s => by cases s <;> rfl⟩
  -- both comparisons look at the kinds first, and at the parts only if both numbers are of one kind
  rcases a with (_ | _) | _ | s | ⟨_ | _, m, e, hm⟩ <;> rcases b with (_ | _) | _ | t | ⟨_ | _, n, f, hn⟩ <;>
    simp_all [UnpackedFloat.compare, UnpackedFloat.isNaN, rankOf, Prod.Lex.toLex_lt_toLex, Ordering.swap_eq_lt,
      Ordering.swap_eq_gt, then_eq_lt_iff, then_eq_gt_iff]
  · rw [eq_comm (a := e)]
  · rw [eq_comm (a := e)]

lemma lt_iff_rank_lt (hx : x.isNaN = false) (hy : y.isNaN = false) : x < y ↔ rank x < rank y := by
  obtain ⟨o, ho, hlt, -⟩ := compare_cases (a := x.toModel.unpack) (b := y.toModel.unpack) hx hy
  change decide (x.toModel.lt y.toModel = true) = true ↔ rank x < rank y
  rw [decide_eq_true_iff]
  change (x.toModel.unpack.compare y.toModel.unpack == some .lt) = true ↔ rank x < rank y
  rw [ho, beq_iff_eq, Option.some.injEq]
  exact hlt

/-- Doubles that are numbers are equal exactly if they have one rank. -/
lemma beq_eq (hx : x.isNaN = false) (hy : y.isNaN = false) : (x == y) = decide (rank x = rank y) := by
  obtain ⟨o, ho, hlt, hgt⟩ := compare_cases (a := x.toModel.unpack) (b := y.toModel.unpack) hx hy
  change (x.toModel.unpack.compare y.toModel.unpack == some .eq) = decide (rank x = rank y)
  rw [ho, Bool.eq_iff_iff, beq_iff_eq, Option.some.injEq, decide_eq_true_iff]
  cases o with
  | lt => exact iff_of_false (by simp) (hlt.mp rfl).ne
  | eq => exact iff_of_true rfl (le_antisymm (not_lt.mp (mt hgt.mpr (by simp))) (not_lt.mp (mt hlt.mpr (by simp))))
  | gt => exact iff_of_false (by simp) (hgt.mp rfl).ne'

/-- Two numbers that are doubles are compared as their ranks are. -/
lemma compareFloat?_eq (hx : x.isNaN = false) (hy : y.isNaN = false) :
    compareFloat? x y = some (compare (rank x) (rank y)) := by
  rcases lt_trichotomy (rank x) (rank y) with h | h | h
  · rw [compareFloat?, if_pos ((lt_iff_rank_lt hx hy).mpr h), compare_lt_iff_lt.mpr h]
  · rw [compareFloat?, if_neg (mt (lt_iff_rank_lt hx hy).mp h.not_lt), if_neg (mt (lt_iff_rank_lt hy hx).mp h.not_gt),
      if_pos ((beq_eq hx hy).trans (decide_eq_true h)), compare_eq_iff_eq.mpr h]
  · rw [compareFloat?, if_neg (mt (lt_iff_rank_lt hx hy).mp h.not_gt), if_pos ((lt_iff_rank_lt hy hx).mpr h),
      compare_gt_iff_gt.mpr h]

/-- A double that is not below another one is at least it. -/
lemma not_lt_eq (hx : x.isNaN = false) (hy : y.isNaN = false) : (!(decide (x < y))) = decide (rank y ≤ rank x) := by
  rw [Bool.eq_iff_iff, Bool.not_eq_true', decide_eq_false_iff_not, decide_eq_true_iff, lt_iff_rank_lt hx hy, not_lt]

lemma le_iff_rank_le (hx : x.isNaN = false) (hy : y.isNaN = false) : x ≤ y ↔ rank x ≤ rank y := by
  obtain ⟨o, ho, -, hgt⟩ := compare_cases (a := x.toModel.unpack) (b := y.toModel.unpack) hx hy
  change decide (x.toModel.le y.toModel = true) = true ↔ rank x ≤ rank y
  rw [decide_eq_true_iff]
  change ((x.toModel.unpack.compare y.toModel.unpack).any (·.isLE)) = true ↔ rank x ≤ rank y
  rw [ho, Option.any_some, ← not_lt, rank, rank, ← hgt]
  cases o <;> simp

/-! ## Signs -/

/-- A number with the other sign, taken apart. -/
lemma unpack_neg (h : x.isNaN = false) : (-x).toModel.unpack = x.toModel.unpack.neg := by
  let b : BitVec Format.binary64.numBits := x.toModel.toBits.toBitVec
  let b' := packComponents Format.binary64 (-Sign.ofBitVec (unpackSign b)) (unpackExponent b) (unpackMantissa b)
  have hb' : UnpackedFloat.unpack _ b' = (UnpackedFloat.unpack _ b).neg := by
    simp only [UnpackedFloat.unpack, b', unpackSign_packComponents, unpackExponent_packComponents,
      unpackMantissa_packComponents, Sign.ofBitVec_toBitVec]
    split_ifs <;> rfl
  have hvalid : Format.binary64.Valid b' := by
    refine ⟨fun hexponent hmantissa => absurd h ?_⟩
    rw [unpackExponent_packComponents] at hexponent
    rw [unpackMantissa_packComponents] at hmantissa
    change (UnpackedFloat.unpack _ b).isNaN ≠ false
    simp [UnpackedFloat.unpack, hexponent, hmantissa, UnpackedFloat.isNaN]
  change UnpackedFloat.unpack _ (UnpackedFloat.pack _ (UnpackedFloat.unpack _ b).neg) = _
  rw [← hb', pack_unpack_of_valid hvalid, hb']
  rfl

/-- The order of doubles is turned around by their signs. -/
lemma rank_neg (h : x.isNaN = false) : rank (-x) = -rank x := by
  rw [rank, rank, unpack_neg h]
  rcases x.toModel.unpack with (_ | _) | _ | _ | ⟨_ | _, m, e, hm⟩
  case finite.negative =>
    change toLex (1, toLex (e, (m : ℤ))) = toLex (- -1, toLex (- -e, - -(m : ℤ)))
    rw [neg_neg, neg_neg, neg_neg]
  all_goals rfl

/-! ## Not-a-number -/

lemma unpack_of_isNaN (h : x.isNaN = true) : x.toModel.unpack = .notANumber := by
  change x.toModel.unpack.isNaN = true at h
  cases hunpack : x.toModel.unpack with
  | notANumber => rfl
  | infinity s | zero s | finite s m e hm =>
    rw [hunpack] at h
    cases h

/-- Not-a-number is not comparable with anything. -/
lemma compare_of_isNaN (h : x.isNaN = true) (y : Float) :
    x.toModel.unpack.compare y.toModel.unpack = none ∧ y.toModel.unpack.compare x.toModel.unpack = none := by
  rw [unpack_of_isNaN h]
  refine ⟨rfl, ?_⟩
  cases y.toModel.unpack <;> rfl

lemma isNaN_eq_false_of_lt (h : x < y) : x.isNaN = false ∧ y.isNaN = false := by
  change decide (x.toModel.lt y.toModel = true) = true at h
  rw [decide_eq_true_iff] at h
  change (x.toModel.unpack.compare y.toModel.unpack == some .lt) = true at h
  constructor
  · by_contra hnan
    rw [(compare_of_isNaN (by simpa using hnan) y).1] at h
    cases h
  · by_contra hnan
    rw [(compare_of_isNaN (by simpa using hnan) x).2] at h
    cases h

lemma compareFloat?_of_isNaN (h : x.isNaN = true) (y : Float) :
    compareFloat? x y = none ∧ compareFloat? y x = none := by
  have hlt : ¬ x < y := fun hlt => Bool.false_ne_true ((isNaN_eq_false_of_lt hlt).1.symm.trans h)
  have hgt : ¬ y < x := fun hgt => Bool.false_ne_true ((isNaN_eq_false_of_lt hgt).2.symm.trans h)
  obtain ⟨hleft, hright⟩ := compare_of_isNaN h y
  have heq : (x == y) = false := by
    change (x.toModel.unpack.compare y.toModel.unpack == some .eq) = false
    rw [hleft]
    rfl
  have heq' : (y == x) = false := by
    change (y.toModel.unpack.compare x.toModel.unpack == some .eq) = false
    rw [hright]
    rfl
  simp [compareFloat?, hlt, hgt, heq, heq']

lemma compareInt?_of_isNaN (h : x.isNaN = true) (n : ℤ) : compareInt? n x = none := by
  rw [compareInt?, ofFloat_eq, unpack_of_isNaN h]
  rfl

end CodeAudit.Number

namespace CodeAudit.Datum

open Number

variable {x y : Float} {sign : Sign} {d : Datum}

/-- Values that are doubles are compared as the ranks of the doubles are. -/
lemma less_float (hx : x.isNaN = false) (hy : y.isNaN = false) :
    less (.float x) (.float y) = .ok (decide (Number.rank x < Number.rank y)) := by
  change Except.ok ((compareFloat? x y).elim false Sign.lt.holds) = _
  rw [compareFloat?_eq hx hy]
  congr 1
  change (compare (Number.rank x) (Number.rank y) == .lt) = _
  rw [Bool.eq_iff_iff, beq_iff_eq, decide_eq_true_iff, compare_lt_iff_lt]

lemma equals_float (hx : x.isNaN = false) (hy : y.isNaN = false) :
    equals (.float x) (.float y) = decide (Number.rank x = Number.rank y) := by
  simp only [equals, numeric?]
  change (compareFloat? x y == some .eq) = _
  rw [compareFloat?_eq hx hy, Bool.eq_iff_iff, beq_iff_eq, Option.some.injEq, compare_eq_iff_eq, decide_eq_true_iff]

/-- A double that stands in an order to something is a number. -/
lemma isNaN_eq_false_of_ordered (h : ordered sign (.float x) d = .ok true) : x.isNaN = false := by
  by_contra hnan
  have hnan : x.isNaN = true := by simpa using hnan
  have hnone : ∀ n : Numeric, (Numeric.float x).compare? n = none := by
    intro n
    cases n with
    | int n =>
      rw [Numeric.compare?, compareInt?_of_isNaN hnan]
      rfl
    | float y => exact (compareFloat?_of_isNaN hnan y).1
  cases d <;> simp [ordered, numeric?, hnone] at h

lemma ordered_int (sign : Sign) (a b : ℤ) : ordered sign (.int a) (.int b) = .ok (sign.holds (compare a b)) := rfl

lemma less_int (a b : ℤ) : less (.int a) (.int b) = .ok (decide (a < b)) := by
  rw [less, ordered_int]
  congr 1
  change (compare a b == .lt) = _
  rw [Bool.eq_iff_iff, beq_iff_eq, decide_eq_true_iff, compare_lt_iff_lt]

lemma equals_int (a b : ℤ) : equals (.int a) (.int b) = decide (a = b) := by
  simp only [equals, numeric?]
  change (some (compare a b) == some .eq) = _
  rw [Bool.eq_iff_iff, beq_iff_eq, Option.some.injEq, compare_eq_iff_eq, decide_eq_true_iff]

lemma ordered_ge_int (a b : ℤ) : ordered .ge (.int a) (.int b) = .ok (decide (b ≤ a)) := by
  rw [ordered_int]
  congr 1
  change (compare a b != .lt) = _
  rw [Bool.eq_iff_iff, bne_iff_ne, decide_eq_true_iff, compare_ge_iff_ge]

/-- A double reaches each number that is at most the double. -/
lemma ordered_ge_of_le (h : ordered .le d (.float x) = .ok true) : ordered .ge (.float x) d = .ok true := by
  have hswap : ∀ o : Option Ordering, o.elim false Sign.le.holds = (o.map Ordering.swap).elim false Sign.ge.holds := by
    rintro (_ | _ | _ | _) <;> rfl
  cases d with
  | bool b =>
    change Except.ok ((compareInt? (if b then 1 else 0) x).elim false Sign.le.holds) = .ok true at h
    rwa [hswap] at h
  | int n =>
    change Except.ok ((compareInt? n x).elim false Sign.le.holds) = .ok true at h
    rwa [hswap] at h
  | float y =>
    have hy : y.isNaN = false := isNaN_eq_false_of_ordered h
    change Except.ok ((compareFloat? y x).elim false Sign.le.holds) = .ok true at h
    have hx : x.isNaN = false := by
      by_contra hnan
      rw [(compareFloat?_of_isNaN (by simpa using hnan) y).2] at h
      cases h
    rw [compareFloat?_eq hy hx, hswap, Option.map_some, ← Std.OrientedOrd.eq_swap,
      ← compareFloat?_eq hx hy] at h
    exact h
  | _ => cases h

/-- What can be compared with one double can be compared with all of them. -/
lemma exists_ordered_float {r : Bool} (h : ordered sign d (.float x) = .ok r)
    (sign' : Sign) (y : Float) : ∃ r', ordered sign' (.float y) d = .ok r' := by
  cases d with
  | bool | int | float => exact ⟨_, rfl⟩
  | _ => cases h

/-- A double can be compared with every number. -/
lemma exists_ordered_of_isSome (h : d.numeric?.isSome = true) (sign : Sign) (x : Float) :
    ∃ r, ordered sign (.float x) d = .ok r := by
  cases d with
  | bool | int | float => exact ⟨_, rfl⟩
  | _ => cases h

end CodeAudit.Datum
