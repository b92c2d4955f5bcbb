import CodeAudit.Proofs.Number.Order
import CodeAudit.Proofs.Score.Finding

/-!
# The range of scores

Every score is a quantity moved into the unit interval. Over exact numbers it lies in that interval therefore. Over
doubles it does so unless it is not-a-number, and no formula gives not-a-number: a complexity counts only if it is
above its threshold, which not-a-number is not, and a similarity is compared with the least one before it is reported.

## Main definitions

* `Number.exact` — the number for which a double stands.
* `ScoredFinding.Sound` — a finding whose score, lines and severity are as they should be.

## Main results

* `ScoredFinding.sound_of_ofRaw` — scored findings are sound.
* `ScoredFinding.exists_sound_exact` — what can be scored over doubles can be scored over exact numbers, and
  the scored findings are sound.
-/

namespace CodeAudit

open Outcome Number Quantity Score

/-! ## Exact numbers -/

/-- The number for which a double stands; what is no number stands for zero. -/
def Number.exact (x : Float) : ℚ :=
  match Form.ofFloat x with
  | .finite negative m q => (if negative then -(m : ℚ) else m) * 2 ^ q
  | _ => 0

/-- Exact numbers. -/
instance : Quantity ℚ where
  fraction n d := n / d
  ofFloat := Number.exact
  add x y := x + y
  sub x y := x - y
  mul x y := x * y
  div x y := x / y
  less x y := x < y
  equal x y := x == y
  text x := decimalInt x.num ++ "/" ++ decimalInt x.den

open Float.Model UnpackedFloat in
/-- A double whose double is not zero stands for a number that is not zero. -/
lemma Number.exact_ne_zero {x : Float} {n : ℤ} (hfinite : Datum.floatToInt x = .ok n) (h : (x * 2 == 0) = false) :
    Number.exact x ≠ 0 := by
  intro hzero
  have hform : ∃ negative q, Form.ofFloat x = .finite negative 0 q := by
    unfold Number.exact at hzero
    unfold Datum.floatToInt truncate at hfinite
    cases hx : Form.ofFloat x with
    | nan => simp [hx] at hfinite
    | infinite negative => simp [hx] at hfinite
    | finite negative m q =>
      rw [hx] at hzero
      have hpow : (2 : ℚ) ^ q ≠ 0 := zpow_ne_zero q (by decide)
      obtain rfl : m = 0 := by
        cases negative <;> simpa [hpow] using hzero
      exact ⟨negative, q, rfl⟩
  obtain ⟨negative, q, hform⟩ := hform
  rw [ofFloat_eq] at hform
  obtain ⟨s, hs⟩ : ∃ s, x.toModel.unpack = .zero s := by
    cases hx : x.toModel.unpack with
    | notANumber => simp [hx, formOf] at hform
    | infinity s => simp [hx, formOf] at hform
    | zero s => exact ⟨s, rfl⟩
    | finite s m e hm =>
      rw [hx] at hform
      have hnone : m = 0 := (Form.finite.inj hform).2.1
      omega
  -- zero times two is zero
  have hproduct : (x * 2 : Float) = ⟨Float.Model.pack (UnpackedFloat.mul Format.binary64 (.zero s)
      (2 : Float).toModel.unpack)⟩ := by
    rw [← hs]
    rfl
  rw [hproduct] at h
  cases s <;> exact absurd h (by decide +kernel)

/-! ## The unit interval -/

/-- A double that is a number is moved into the unit interval. -/
lemma Quantity.unit_float {x : Float} (h : x.isNaN = false) : 0 ≤ Quantity.unit x ∧ Quantity.unit x ≤ 1 := by
  have hzero : (fraction 0 1 : Float) = 0 := by decide +kernel
  have hone : (fraction 1 1 : Float) = 1 := by decide +kernel
  have hends : (0 : Float) ≤ 0 ∧ (0 : Float) ≤ 1 ∧ (1 : Float) ≤ 1 := by decide +kernel
  have hnan : (0 : Float).isNaN = false ∧ (1 : Float).isNaN = false := by decide +kernel
  unfold Quantity.unit
  rw [hzero, hone]
  split_ifs with hlow hhigh
  · exact ⟨hends.1, hends.2.1⟩
  · exact ⟨hends.2.1, hends.2.2⟩
  · have hlow : ¬ x < 0 := by simpa [Quantity.less] using hlow
    have hhigh : ¬ 1 < x := by simpa [Quantity.less] using hhigh
    rw [le_iff_rank_le hnan.1 h, le_iff_rank_le h hnan.2]
    rw [lt_iff_rank_lt h hnan.1] at hlow
    rw [lt_iff_rank_lt hnan.2 h] at hhigh
    exact ⟨not_lt.mp hlow, not_lt.mp hhigh⟩

lemma Quantity.unit_eq (x : ℚ) : Quantity.unit x = max 0 (min 1 x) := by
  simp only [Quantity.unit, Quantity.less, fraction, Int.cast_zero, Int.cast_one, Nat.cast_one, div_one,
    decide_eq_true_iff]
  split_ifs with hlow hhigh
  · rw [min_eq_right (by linarith), max_eq_left hlow.le]
  · rw [min_eq_left hhigh.le, max_eq_right zero_le_one]
  · rw [min_eq_right (not_lt.mp hhigh), max_eq_right (not_lt.mp hlow)]

/-- An exact number is moved into the unit interval. -/
lemma Quantity.unit_exact (x : ℚ) : 0 ≤ Quantity.unit x ∧ Quantity.unit x ≤ 1 := by
  rw [unit_eq]
  exact ⟨le_max_left _ _, max_le zero_le_one (min_le_left _ _)⟩

lemma Score.of_complexity {α : Type} [Quantity α] {value weight threshold score : α}
    (h : complexity value weight threshold = .ok score) :
    Quantity.equal (Quantity.mul threshold (fraction 2 1)) (fraction 0 1) = false ∧
      score = Quantity.unit (Quantity.mul (Quantity.excess value threshold) weight) := by
  rw [complexity_eq] at h
  split_ifs at h with hzero
  exact ⟨Bool.eq_false_iff.mpr hzero, (Except.ok.inj h).symm⟩

/-- **Over exact numbers, a complexity has a score for every threshold but zero.** -/
lemma Score.complexity_exact (value weight : ℚ) {threshold : ℚ} (h : threshold ≠ 0) :
    complexity value weight threshold =
      .ok (Quantity.unit (max 0 ((value - threshold) / (threshold * 2)) * weight)) := by
  have hexcess : Quantity.excess value threshold = max 0 ((value - threshold) / (threshold * 2)) := by
    simp [Quantity.excess, Quantity.less, Quantity.div, Quantity.sub, Quantity.mul, fraction, max_def_lt]
  rw [complexity_eq, if_neg (by simp [Quantity.equal, Quantity.mul, fraction, h]), hexcess]
  rfl

namespace ScoredFinding

variable {threshold f : Datum} {c : Category}

variable {s : ScoredFinding Float}

/-- Every score is a quantity moved into the unit interval. -/
lemma exists_unit_of_scoreOf {α : Type} [Quantity α] {score : α} (h : scoreOf α threshold c f = .ok score) :
    ∃ x : α, score = Quantity.unit x := by
  cases c with
  | complexity =>
    obtain ⟨value, -, h⟩ := bind_eq_ok.mp h
    obtain ⟨bound, -, h⟩ := bind_eq_ok.mp h
    exact ⟨_, (of_complexity h).2⟩
  | duplication =>
    obtain ⟨similarity, -, h⟩ := bind_eq_ok.mp h
    rw [duplication_eq] at h
    exact ⟨_, (Except.ok.inj h).symm⟩
  | security | performance | documentation | testing =>
    change ofWeight _ = _ at h
    rw [ofWeight_eq] at h
    exact ⟨_, (Except.ok.inj h).symm⟩

/-- A finding whose similarity, if it has one, is a number. -/
def Comparable (c : Category) (f : Datum) : Prop :=
  c = .duplication → ∀ x, (f.fieldOr "similarity" (.float 0)).toFloat = .ok x → x.isNaN = false

/-- **Over doubles, scores lie in the unit interval.** -/
lemma range_of_scoreOf (hf : Comparable c f) {score : Float} (h : scoreOf Float threshold c f = .ok score) :
    0 ≤ score ∧ score ≤ 1 := by
  -- the weights that are multiplied with are numbers, and not zero
  obtain ⟨_, _, _, _, hweight⟩ : ∃ s m e hm, (Weights.standardOf .complexity : Float).toModel.unpack =
      .finite s m e hm := ⟨_, _, _, _, rfl⟩
  obtain ⟨_, _, _, _, hweight'⟩ : ∃ s m e hm, (Weights.standardOf .duplication : Float).toModel.unpack =
      .finite s m e hm := ⟨_, _, _, _, rfl⟩
  cases c with
  | complexity =>
    obtain ⟨value, -, h⟩ := bind_eq_ok.mp h
    obtain ⟨bound, -, h⟩ := bind_eq_ok.mp h
    rw [(of_complexity h).2]
    dsimp only [Quantity.excess]
    refine unit_float (isNaN_mul ?_ hweight)
    split_ifs with hpositive
    · exact (isNaN_eq_false_of_lt (by simpa [Quantity.less] using hpositive)).2
    · decide +kernel
  | duplication =>
    obtain ⟨similarity, hsimilarity, h⟩ := bind_eq_ok.mp h
    rw [duplication_eq] at h
    rw [← Except.ok.inj h]
    exact unit_float (isNaN_mul (hf rfl similarity hsimilarity) hweight')
  | security | performance | documentation | testing =>
    change ofWeight _ = _ at h
    rw [ofWeight_eq] at h
    rw [← Except.ok.inj h]
    exact unit_float (by decide +kernel)

/-! ## Sound findings -/

/-- **A sound finding**: its score lies in the unit interval, its lines are counted from one, and its severity is that
of its score. -/
structure Sound {α : Type} [Quantity α] [LE α] [OfNat α 0] [OfNat α 1] (s : ScoredFinding α) : Prop where
  score : 0 ≤ s.score ∧ s.score ≤ 1
  firstLine : 1 ≤ s.firstLine
  lastLine : 1 ≤ s.lastLine
  severity : Severity.ofScore s.score = .ok s.severity

/-- A scored finding is sound if its score lies in the unit interval. -/
lemma sound_of_scoreOf {α : Type} [Quantity α] [LE α] [OfNat α 0] [OfNat α 1] {s : ScoredFinding α}
    (h : ofRaw threshold c f = .ok s)
    (hrange : ∀ score, scoreOf α threshold c f = .ok score → 0 ≤ score ∧ score ≤ 1) : s.Sound := by
  obtain ⟨j, place, hstems⟩ := exists_stems h
  obtain ⟨first, -, hfirst⟩ := hstems.firstLine
  obtain ⟨last, -, hlast⟩ := hstems.lastLine
  constructor
  · rw [hstems.score]
    exact hrange _ (scoreOf_judge hstems.judged)
  · exact hfirst ▸ le_max_left 1 first
  · exact hlast ▸ le_max_left 1 last
  · rw [hstems.score]
    exact hstems.severity

/-- **Scored findings are sound.** -/
lemma sound_of_ofRaw (hf : Comparable c f) (h : ofRaw threshold c f = .ok s) : s.Sound :=
  sound_of_scoreOf h fun _ => range_of_scoreOf hf

/-- What has a score over doubles has one over exact numbers: the threshold by which complexities are measured is a
number, and not zero. -/
lemma exists_scoreOf_exact {j : Judgement Float} {place : Except Fault Where}
    (h : judge threshold c f = .ok (j, place)) : ∃ score, scoreOf ℚ threshold c f = .ok score := by
  cases c with
  | complexity =>
    obtain ⟨j', hj, -⟩ := bind_eq_ok.mp h
    obtain ⟨value, hvalue, hj⟩ := bind_eq_ok.mp hj
    obtain ⟨bound, hbound, hj⟩ := bind_eq_ok.mp hj
    obtain ⟨own, hown, hj⟩ := bind_eq_ok.mp hj
    obtain ⟨n, -, hj⟩ := bind_eq_ok.mp hj
    obtain ⟨m, hm, -⟩ := bind_eq_ok.mp hj
    have hnonzero : (bound * 2 == 0) = false := (of_complexity hown).1
    have hscore := complexity_exact (Number.exact value) (Weights.standardOf .complexity)
      (exact_ne_zero hm hnonzero)
    exact ⟨_, bind_eq_ok.mpr ⟨value, hvalue, bind_eq_ok.mpr ⟨bound, hbound, hscore⟩⟩⟩
  | duplication =>
    obtain ⟨⟨j', place'⟩, hj, -⟩ := bind_eq_ok.mp h
    obtain ⟨similarity, hsimilarity, -⟩ := bind_eq_ok.mp hj
    exact ⟨_, bind_eq_ok.mpr ⟨similarity, hsimilarity, duplication_eq _ _⟩⟩
  | security | performance | documentation | testing => exact ⟨_, ofWeight_eq _⟩

/-- What can be scored over doubles can be scored over exact numbers. -/
lemma exists_ofRaw_exact (h : ofRaw threshold c f = .ok s) :
    ∃ s : ScoredFinding ℚ, ofRaw threshold c f = .ok s := by
  obtain ⟨j, place, hstems⟩ := exists_stems h
  obtain ⟨score, hscore⟩ := exists_scoreOf_exact hstems.judged
  obtain ⟨fix, hfix⟩ := hstems.advised
  obtain ⟨first, hfirst, -⟩ := hstems.firstLine
  obtain ⟨last, hlast, -⟩ := hstems.lastLine
  obtain ⟨file, hfile⟩ := hstems.file
  exact exists_ofRaw ((of_judge score hstems.judged).2 hscore) hfix hstems.id hfirst hlast hfile

/-- **What can be scored over doubles can be scored over exact numbers**, and the scored findings are sound. -/
lemma exists_sound_exact {raw : RawFindings} {scored : List (ScoredFinding Float)}
    (h : ofAllRaw threshold raw = .ok scored) :
    ∃ rescored : List (ScoredFinding ℚ), ofAllRaw threshold raw = .ok rescored ∧ ∀ s ∈ rescored, s.Sound := by
  obtain ⟨group, hgroup, -⟩ := exists_groups h
  obtain ⟨rescored, hrescored⟩ : ∃ rescored : List (ScoredFinding ℚ), ofAllRaw threshold raw = .ok rescored := by
    refine exists_ofAllRaw fun c f hf => ?_
    have hmem : ofRaw threshold c f ∈ (group c).map Except.ok :=
      mapM_eq_ok_iff.mp (hgroup c) ▸ List.mem_map_of_mem hf
    obtain ⟨s, -, hs⟩ := List.mem_map.mp hmem
    exact exists_ofRaw_exact hs.symm
  refine ⟨rescored, hrescored, fun s hs => ?_⟩
  obtain ⟨c, f, -, hf⟩ := exists_raw_of_mem hrescored hs
  refine sound_of_scoreOf hf fun score hscore => ?_
  obtain ⟨x, rfl⟩ := exists_unit_of_scoreOf hscore
  exact unit_exact x

end ScoredFinding

end CodeAudit
