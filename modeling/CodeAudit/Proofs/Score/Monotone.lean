import CodeAudit.Proofs.Score.Range

/-!
# Scores rise with what they measure

Over exact numbers every score is a number moved into the unit interval, and what is moved there rises with the
complexity, the similarity, the base and the context. So the score rises, and with it the severity.

## Main definitions

* `Score.Rises` — a score that is not less than another one, nor less severe.
* `Score.lift` — how much of what is missing to one a context adds.

## Main results

* `Score.withContext_exact` — scores in a context.
* `Score.scores_rise` — scores rise, and a context never lowers them.
-/

namespace CodeAudit

open Quantity Severity

lemma Quantity.unit_mono {x y : ℚ} (h : x ≤ y) : Quantity.unit x ≤ Quantity.unit y := by
  rw [unit_eq, unit_eq]
  exact max_le_max le_rfl (min_le_min le_rfl h)

/-- How urgent a severity is, in steps above the least one. -/
def Severity.urgency : Severity → ℕ
  | p0 => 3
  | p1 => 2
  | p2 => 1
  | p3 => 0

/-- The bands into which scores are cut. -/
lemma Severity.ofScore_exact (x : ℚ) : ofScore x =
    .ok (if 4 / 5 ≤ x then p0 else if 3 / 5 ≤ x then p1 else if 2 / 5 ≤ x then p2 else p3) := by
  have hordered (y : ℚ) : Scalar.ordered .ge x y = .ok (decide (y ≤ x)) := by
    simp [Scalar.ordered, Quantity.ordered, Quantity.less, Quantity.equal, le_iff_lt_or_eq, eq_comm, beq_eq_decide]
  have hbands : (Scalar.fraction 8 10 : ℚ) = 4 / 5 ∧ (Scalar.fraction 6 10 : ℚ) = 3 / 5 ∧
      (Scalar.fraction 4 10 : ℚ) = 2 / 5 := by
    norm_num [Scalar.fraction, Quantity.fraction]
  unfold ofScore
  simp only [hordered, hbands, bind, Except.bind, decide_eq_true_iff]
  split_ifs <;> rfl

namespace Score

/-- **A score that rises**: both are in the unit interval, and the second one is neither less nor less severe. -/
def Rises (a b : Except Fault ℚ) : Prop :=
  ∃ x y u v, a = .ok x ∧ b = .ok y ∧ 0 ≤ x ∧ x ≤ y ∧ y ≤ 1 ∧ ofScore x = .ok u ∧
    ofScore y = .ok v ∧ u.urgency ≤ v.urgency

/-- What rises still does so when it is moved into the unit interval. -/
lemma rises_unit {x y : ℚ} (h : x ≤ y) : Rises (.ok (Quantity.unit x)) (.ok (Quantity.unit y)) := by
  have hunit := unit_mono h
  refine ⟨_, _, _, _, rfl, rfl, (unit_exact x).1, hunit, (unit_exact y).2,
    ofScore_exact _, ofScore_exact _, ?_⟩
  split_ifs <;> first | decide | linarith

/-! ## Contexts -/

/-- A context that says no less than another one: nothing says least. -/
def SaysMore (context context' : Option ℚ) : Prop :=
  ∀ x ∈ context, ∃ y ∈ context', x ≤ y

lemma contextCap_bounds (category : Option Category) : (0 : ℚ) ≤ contextCap category ∧ contextCap category ≤ (1 : ℚ) := by
  unfold contextCap
  split <;> norm_num [Scalar.fraction, Quantity.fraction]

/-- How much of what is missing to one a context adds. -/
def lift (category : Option Category) : Option ℚ → ℚ
  | none => 0
  | some context => contextCap category * Quantity.unit context

lemma lift_nonneg (category : Option Category) (context : Option ℚ) : 0 ≤ lift category context := by
  cases context with
  | none => exact le_rfl
  | some c => exact mul_nonneg (contextCap_bounds category).1 (unit_exact c).1

lemma lift_le_one (category : Option Category) (context : Option ℚ) : lift category context ≤ 1 := by
  cases context with
  | none => exact zero_le_one
  | some c => exact mul_le_one₀ (contextCap_bounds category).2 (unit_exact c).1 (unit_exact c).2

/-- A context that says more adds more. -/
lemma lift_mono (category : Option Category) {context context' : Option ℚ} (h : SaysMore context context') :
    lift category context ≤ lift category context' := by
  cases context with
  | none => exact lift_nonneg category context'
  | some c =>
    obtain ⟨c', rfl, hle⟩ := h c rfl
    exact mul_le_mul_of_nonneg_left (unit_mono hle) (contextCap_bounds category).1

/-- **A score in a context**: what is missing to one shrinks by the share that the context adds. -/
lemma withContext_exact (base : ℚ) (category : Option Category) (context : Option ℚ) :
    withContext base category context = .ok (Quantity.unit (1 - (1 - base) * (1 - lift category context))) := by
  cases context with
  | none =>
    rw [lift, sub_zero, mul_one, sub_sub_cancel]
    exact clamp_eq base
  | some c =>
    have hraised : 1 - (1 - base) * (1 - lift category (some c)) =
        base + contextCap category * Quantity.unit c - base * contextCap category * Quantity.unit c := by
      rw [lift]
      ring
    rw [hraised, ← clamp_eq, withContext, clamp_eq c]
    rfl

/-- **Scores rise with what they measure.** Over exact numbers, with a weight that is not negative, the score of a
function rises with its complexity, for every threshold above zero, and with its similarity to another function. A
context never lowers a base in the unit interval, and the score in a context rises with the base and with the context.
All scores are in the unit interval, and severities rise with them. -/
theorem scores_rise :
    (∀ weight threshold value value' : ℚ, 0 ≤ weight → 0 < threshold → value ≤ value' →
      Rises (complexity value weight threshold) (complexity value' weight threshold)) ∧
    (∀ weight similarity similarity' : ℚ, 0 ≤ weight → similarity ≤ similarity' →
      Rises (duplication similarity weight) (duplication similarity' weight)) ∧
    ∀ (category : Option Category) (base : ℚ) (context : Option ℚ), 0 ≤ base → base ≤ 1 →
      Rises (clamp base) (withContext base category context) ∧
      ∀ base' context', base ≤ base' → base' ≤ 1 → SaysMore context context' →
        Rises (withContext base category context) (withContext base' category context') := by
  refine ⟨fun weight threshold value value' hweight hthreshold hvalue => ?_, fun weight s s' hweight hs => ?_,
    fun category base context hlow hhigh => ⟨?_, fun base' context' hbase hhigh' hmore => ?_⟩⟩
  · rw [complexity_exact _ _ hthreshold.ne', complexity_exact _ _ hthreshold.ne']
    refine rises_unit (mul_le_mul_of_nonneg_right (max_le_max le_rfl ?_) hweight)
    exact div_le_div_of_nonneg_right (by linarith) (by linarith)
  · rw [duplication_eq, duplication_eq]
    exact rises_unit (mul_le_mul_of_nonneg_right hs hweight)
  · rw [clamp_eq, withContext_exact]
    refine rises_unit ?_
    have := mul_le_of_le_one_right (sub_nonneg.mpr hhigh) (sub_le_self 1 (lift_nonneg category context))
    linarith
  · rw [withContext_exact, withContext_exact]
    refine rises_unit (sub_le_sub_left (mul_le_mul (by linarith) ?_ ?_ (by linarith)) 1)
    · exact sub_le_sub_left (lift_mono category hmore) 1
    · exact sub_nonneg.mpr (lift_le_one category context')

/-- A complexity of forty is at most urgent and one of fifteen least; a base of a half rises in a context. -/
theorem scores_rise_samples :
    Rises (complexity 15 (3 / 5) 10) (complexity 40 (3 / 5) 10) ∧ Rises (duplication (9 / 10) (1 / 2)) (duplication 1 (1 / 2)) ∧
      Rises (clamp (1 / 2)) (withContext (1 / 2) (some .security) none) ∧
      Rises (withContext (1 / 2) (some .security) none) (withContext (3 / 4) (some .security) (some (1 / 2))) := by
  obtain ⟨hcomplexity, hduplication, hcontext⟩ := scores_rise
  obtain ⟨hlow, hmore⟩ := hcontext (some .security) (1 / 2) none (by norm_num) (by norm_num)
  exact ⟨hcomplexity _ _ _ _ (by norm_num) (by norm_num) (by norm_num), hduplication _ _ _ (by norm_num) (by norm_num),
    hlow, hmore _ _ (by norm_num) (by norm_num) (by rintro x ⟨⟩)⟩

end Score

end CodeAudit
