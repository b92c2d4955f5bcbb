import CodeAudit.Proofs.Analysis.Run
import CodeAudit.Proofs.Datum

/-!
# Weights that are set, and the scores of an analysis

Setting weights changes the weights by name, setting after setting, as it should. The scores of an analysis are
computed with the usual weights all the same: what was set does not reach them.

## Main definitions

* `Weights.Setting` — new weights for some of the categories.
* `Analysis.Follows` — all scores of an analysis follow from weights.

## Main results

* `Analysis.follows_standardOf` — the scores of an analysis follow from the usual weights.
* `Analysis.follows_configured_iff` — when they follow from the weights that were set.
-/

namespace CodeAudit

open List Weights ScoredFinding

/-! ## Settings -/

namespace Weights

variable {weights : Weights} {w : Category → Float}

/-- New weights for some of the categories: numbers, at most one for each category. -/
structure Setting where
  entries : List (Category × Datum)
  distinct : (entries.map (·.1)).Nodup
  numbers : ∀ e ∈ entries, e.2.numeric?.isSome = true ∧ ∃ x, e.2.toFloat = .ok x

/-- A setting as a dictionary from names to numbers. -/
def Setting.toDatum (new : Setting) : Datum :=
  .object (new.entries.map fun (c, v) => (c.name, v))

/-- What a category weighs by new entries, if it weighed `old c` before. -/
def entriesOver (entries : List (Category × Datum)) (old : Category → Float) (c : Category) : Float :=
  match entries.lookup c with
  | some v => v.toFloat.toOption.getD (old c)
  | none => old c

/-- What the categories weigh after some settings. -/
def configured (settings : List Setting) : Category → Float :=
  settings.foldl (fun old new => entriesOver new.entries old) standardOf

/-- Overrides weights by one setting after another. -/
def overrideAll (settings : List Setting) (weights : Weights) : Except Fault Weights :=
  settings.foldlM (fun weights new => override new.toDatum weights) weights

/-- Weights by name give every category its weight. -/
def Gives (weights : Weights) (w : Category → Float) : Prop :=
  ∀ c : Category, Datum.lookup (.text c.name) weights = some (.float (w c))

lemma gives_standard : Gives standard standardOf := by
  intro c
  cases c <;> simp [standard, Category.all, Category.name, Datum.lookup, Datum.equals] <;> rfl

lemma name_injective : Function.Injective Category.name := by
  intro c d h
  cases c <;> cases d <;> first | rfl | simp [Category.name] at h

/-- Putting one weight changes the weight of one category. -/
lemma Gives.insert (h : Gives weights w) (c : Category) (x : Float) :
    Gives (Datum.insert (.text c.name) (.float x) weights) (Function.update w c x) := by
  intro d
  rw [Datum.lookup_insert_text]
  by_cases hd : d = c
  · subst hd
    simp
  · rw [if_neg fun hname => hd (name_injective hname), Function.update_of_ne hd]
    exact h d

/-- **Entries put one after another** give the categories that they name their new weights, and no others. -/
lemma Gives.exists_foldlM {entries : List (Category × Datum)} (hdistinct : (entries.map (·.1)).Nodup)
    (hnumbers : ∀ e ∈ entries, e.2.numeric?.isSome = true ∧ ∃ x, e.2.toFloat = .ok x) (h : Gives weights w) :
    ∃ weights', (entries.map fun e => (Datum.text e.1.name, e.2)).foldlM (fun acc (k, v) => do
        if v.numeric?.isSome then return Datum.insert k (.float (← v.toFloat)) acc else return acc) weights =
      (.ok weights' : Except Fault Weights) ∧ Gives weights' (entriesOver entries w) := by
  induction entries generalizing weights w with
  | nil => exact ⟨weights, rfl, h⟩
  | cons e entries ih =>
    obtain ⟨c, v⟩ := e
    rw [map_cons, nodup_cons] at hdistinct
    obtain ⟨hnumber, x, hx⟩ := hnumbers (c, v) mem_cons_self
    obtain ⟨weights', hfold, hgives⟩ := ih hdistinct.2 (fun e he => hnumbers e (mem_cons_of_mem _ he)) (h.insert c x)
    refine ⟨weights', ?_, fun d => (hgives d).trans ?_⟩
    · rw [map_cons, foldlM_cons]
      simp only at hnumber hx
      simp only [hnumber, hx, if_true, bind, Except.bind, pure, Except.pure]
      exact hfold
    · -- the category is not named again
      by_cases hd : d = c
      · subst hd
        have hnone : entries.lookup d = none := lookup_eq_none_iff.mpr fun e he => by
          have hmem : e.1 ∈ entries.map (·.1) := mem_map_of_mem he
          simpa using fun heq : d = e.1 => hdistinct.1 (heq ▸ hmem)
        simp [entriesOver, hnone, hx, Except.toOption]
      · have hne : (d == c) = false := by simpa using hd
        simp [entriesOver, lookup_cons, hne, Function.update_of_ne hd]

/-- A setting gives the categories that it names their new weights, and no others. -/
lemma Gives.exists_override (h : Gives weights w) (new : Setting) :
    ∃ weights', override new.toDatum weights = .ok weights' ∧ Gives weights' (entriesOver new.entries w) := by
  unfold override Setting.toDatum Datum.object
  by_cases hempty : new.entries = []
  · rw [hempty]
    exact ⟨weights, rfl, h⟩
  · obtain ⟨weights', hfold, hgives⟩ := h.exists_foldlM new.distinct new.numbers
    refine ⟨weights', ?_, hgives⟩
    have htruthy : ∀ entries : List (Datum × Datum), entries ≠ [] → (Datum.dict entries).truthy = true := by
      intro entries hne
      simp [Datum.truthy, hne]
    rw [htruthy _ (by simpa using hempty)]
    simp only [Bool.not_true, Bool.false_eq_true, if_false, Datum.entriesAs, map_map]
    exact hfold

/-- **Settings change the weights by name**: after all of them, every category has the weight that was set last. -/
lemma exists_overrideAll (settings : List Setting) :
    ∃ weights, overrideAll settings standard = .ok weights ∧ Gives weights (configured settings) := by
  unfold overrideAll configured
  generalize hstart : standard = weights
  have hgives : Gives weights standardOf := hstart ▸ gives_standard
  generalize (standardOf : Category → Float) = w at hgives
  clear hstart
  induction settings generalizing weights w with
  | nil => exact ⟨weights, rfl, hgives⟩
  | cons new settings ih =>
    obtain ⟨weights', hnew, hgives'⟩ := hgives.exists_override new
    obtain ⟨final, hfinal, hgives''⟩ := ih weights' _ hgives'
    refine ⟨final, ?_, hgives''⟩
    rw [foldlM_cons, hnew]
    exact hfinal

end Weights

/-! ## Scores -/

namespace ScoredFinding

/-- The score of a raw finding if its category has a weight. A threshold of the run goes before that of the
finding. -/
def scoreBy (weight : Float) (threshold : Datum) (category : Category) (f : Datum) : Except Fault Float :=
  match category with
  | .complexity => do
    let value ← (f.fieldOr "value" (.float 0)).toFloat
    let bound ← (threshold.orElse (f.fieldOr "threshold" (.int 10))).toFloat
    Score.complexity value weight bound
  | .duplication => do
    let similarity ← (f.fieldOr "similarity" (.float 0)).toFloat
    Score.duplication similarity weight
  | _ => Score.ofWeight weight

variable {threshold f : Datum} {category : Category}

/-- A judgement has the score by the usual weight. -/
lemma scoreBy_standardOf {j : Judgement Float} {place : Except Fault Where}
    (h : judge threshold category f = .ok (j, place)) :
    scoreBy (standardOf category) threshold category f = .ok j.score := by
  have hscore := scoreOf_judge h
  cases category <;> exact hscore

end ScoredFinding

namespace Analysis

variable {c : Category}

/-- **All scores of an analysis follow from weights**: the scores of each category are those of its raw findings by its
weight, in order. -/
def Follows (a : Analysis) (w : Category → Float) : Prop :=
  ∀ c, (a.findings.raw.of c).map (scoreBy (w c) (a.thresholds.warnAt.orElse (.int 10)) c) =
    (a.scored.filter (·.category = c)).map fun s => .ok s.score

variable {fs : Files} {root : Path} {request : Request} {a : Analysis}

/-- **The scores of an analysis follow from the usual weights.** -/
lemma follows_standardOf (hrun : run fs root request = .ok a) : a.Follows standardOf := by
  obtain ⟨top, infos, hstages⟩ := stages_of_run hrun
  obtain ⟨group, hgroup, hscored⟩ := exists_groups hstages.scored
  intro c
  rw [hscored, filter_flatMap_group hgroup]
  have hrow := Outcome.mapM_eq_ok_iff.mp (hgroup c)
  have hscore : ∀ f ∈ a.findings.raw.of c,
      scoreBy (standardOf c) (a.thresholds.warnAt.orElse (.int 10)) c f =
        (ofRaw (a.thresholds.warnAt.orElse (.int 10)) c f).map (·.score) := by
    intro f hf
    have hmem : ofRaw (a.thresholds.warnAt.orElse (.int 10)) c f ∈ (group c).map Except.ok :=
      hrow ▸ mem_map_of_mem hf
    obtain ⟨s, -, hs⟩ := mem_map.mp hmem
    obtain ⟨j, place, hjudge, heq, -⟩ := of_ofRaw hs.symm
    rw [← hs, scoreBy_standardOf hjudge, ← heq]
    rfl
  calc (a.findings.raw.of c).map (scoreBy (standardOf c) (a.thresholds.warnAt.orElse (.int 10)) c)
      = ((a.findings.raw.of c).map (ofRaw (a.thresholds.warnAt.orElse (.int 10)) c)).map
          (Except.map (·.score)) := by
        rw [map_map]
        exact map_congr_left hscore
    _ = (group c).map fun s => .ok s.score := by
        rw [hrow, map_map]
        rfl

/-- A category whose findings count as much as it weighs. -/
def CountsByWeight (c : Category) : Prop :=
  c ≠ .complexity ∧ c ≠ .duplication

lemma scoreBy_of_countsByWeight (hc : CountsByWeight c) (weight : Float) (threshold f : Datum) :
    scoreBy weight threshold c f = .ok (Quantity.unit weight) := by
  obtain ⟨hcomplexity, hduplication⟩ := hc
  cases c with
  | complexity => exact absurd rfl hcomplexity
  | duplication => exact absurd rfl hduplication
  | security | performance | documentation | testing => exact Score.ofWeight_eq weight

/-- The usual weights are between zero and one. -/
lemma unit_standardOf (c : Category) : Quantity.unit (standardOf c : Float) = standardOf c := by
  cases c <;> decide +kernel

/-- A finding that counts as much as its category weighs has the usual weight as its score. -/
lemma score_of_countsByWeight (hrun : run fs root request = .ok a) (hc : CountsByWeight c)
    {s : ScoredFinding Float} (hs : s ∈ a.scored) (hcategory : s.category = c) : s.score = standardOf c := by
  have hmem : (.ok s.score : Except Fault Float) ∈ (a.scored.filter (·.category = c)).map fun s => .ok s.score :=
    mem_map_of_mem (mem_filter.mpr ⟨hs, by simpa using hcategory⟩)
  rw [← follows_standardOf hrun c] at hmem
  obtain ⟨f, -, hf⟩ := mem_map.mp hmem
  rw [scoreBy_of_countsByWeight hc, unit_standardOf] at hf
  exact (Except.ok.inj hf).symm

/-- **Weights that are set do not reach the scores of an analysis.** Settings do change the weights by name. The scores
follow from the usual weights whatever was set; so they follow from the weights that were set exactly if these give
every finding the score that the usual ones give it. For findings that count as much as their category weighs, this
means that there is no finding of the category or that the weight, moved into the unit interval, is the usual one. -/
theorem follows_configured_iff (settings : List Weights.Setting) {fs : Files} {root : Path} {request : Request}
    {a : Analysis} (hrun : run fs root request = .ok a) :
    (∃ weights, Weights.overrideAll settings Weights.standard = .ok weights ∧
        Weights.Gives weights (Weights.configured settings)) ∧
      a.Follows Weights.standardOf ∧
      (a.Follows (Weights.configured settings) ↔ ∀ c, ∀ f ∈ a.findings.raw.of c,
        ScoredFinding.scoreBy (Weights.configured settings c) (a.thresholds.warnAt.orElse (.int 10)) c f =
          ScoredFinding.scoreBy (Weights.standardOf c) (a.thresholds.warnAt.orElse (.int 10)) c f) ∧
      ∀ c, CountsByWeight c →
        ((∀ s ∈ a.scored, s.category = c → s.score = Quantity.unit (Weights.configured settings c)) ↔
          (∀ s ∈ a.scored, s.category ≠ c) ∨ Quantity.unit (Weights.configured settings c) = Weights.standardOf c) := by
  have hfollows := follows_standardOf hrun
  refine ⟨Weights.exists_overrideAll settings, hfollows, ?_, fun c hc => ?_⟩
  · unfold Follows
    refine forall_congr' fun c => ?_
    rw [← hfollows c, List.map_inj_left]
  · constructor
    · intro hscores
      by_cases hnone : ∀ s ∈ a.scored, s.category ≠ c
      · exact .inl hnone
      · push Not at hnone
        obtain ⟨s, hs, hcategory⟩ := hnone
        right
        rw [← hscores s hs hcategory]
        exact score_of_countsByWeight hrun hc hs hcategory
    · rintro (hnone | hsame) s hs hcategory
      · exact absurd hcategory (hnone s hs)
      · rw [hsame]
        exact score_of_countsByWeight hrun hc hs hcategory

/-- Half the weight for hazards. -/
def halfSecurity : Setting where
  entries := [(.security, .float 0.5)]
  distinct := by simp
  numbers := by
    rintro e (_ | ⟨_, ⟨⟩⟩)
    exact ⟨rfl, 0.5, rfl⟩

/-- A call of `eval` has the score one, although half of it was set. -/
theorem not_follows_halfSecurity : ∃ a, run (pair (Text.encode "eval(x)\n") []) ⟨"", []⟩ allScripts = .ok a ∧
    ¬ a.Follows (Weights.configured [halfSecurity]) ∧
    ∃ s ∈ a.scored, s.category = .security ∧ s.score = 1 ∧ Weights.configured [halfSecurity] s.category = 0.5 := by
  obtain ⟨a, hrun, hraw, s, hs, hcategory⟩ := exists_run_eval
  obtain ⟨f, hf⟩ := List.exists_mem_of_ne_nil _ hraw
  obtain ⟨-, -, hiff, -⟩ := follows_configured_iff [halfSecurity] hrun
  have hcounts : CountsByWeight .security := by simp [CountsByWeight]
  refine ⟨a, hrun, fun h => ?_, s, hs, hcategory, ?_, ?_⟩
  · have hsame := hiff.mp h .security f hf
    rw [scoreBy_of_countsByWeight hcounts, scoreBy_of_countsByWeight hcounts] at hsame
    exact absurd (Except.ok.inj hsame) (by decide +kernel)
  · rw [score_of_countsByWeight hrun hcounts hs hcategory]
    decide +kernel
  · rw [hcategory]
    decide +kernel

end Analysis

end CodeAudit
