import CodeAudit.Tuning
import CodeAudit.Proofs.Datum

/-!
# Tuned thresholds

The thresholds of complexity are read off the ordered values at three places: in the middle, behind eight tenths and
behind nine tenths of them. The places are in order, so the thresholds are, and they stand in the rules when tuning is
finished, because nothing that comes later touches their section.

## Main definitions

* `Tuning.setting?` — a value in a section of rules.
* `Tuning.Holds` — rules that hold the thresholds of complexity.

## Main results

* `Tuning.holds_adjust` — the thresholds that stand in tuned rules.
* `Tuning.tuned_cutoffs_ordered` — tuned thresholds are ordered.
-/

namespace CodeAudit.Tuning

open Datum

/-! ## Ordered values -/

lemma pairwise_mergeSort_int (values : List ℤ) : values.mergeSort.Pairwise (· ≤ ·) := by
  simpa using List.pairwise_mergeSort' (· ≤ ·) values

section Ordered

variable {ordered : List ℤ} (h : ordered.Pairwise (· ≤ ·))

include h

/-- Values at later places are not less. -/
lemma getD_le_getD {i j : ℕ} (hij : i ≤ j) (hj : j < ordered.length) : ordered.getD i 0 ≤ ordered.getD j 0 := by
  rw [List.getD_eq_getElem _ _ (hij.trans_lt hj), List.getD_eq_getElem _ _ hj]
  rcases hij.eq_or_lt with rfl | hlt
  · rfl
  · exact List.pairwise_iff_getElem.mp h i j _ hj hlt

/-- **The median lies between the two values in the middle**, which are one if their number is odd. -/
lemma median_bounds (hne : ordered ≠ []) :
    ordered.getD ((ordered.length - 1) / 2) 0 ≤ median ordered ∧ median ordered ≤ ordered.getD (ordered.length / 2) 0 := by
  have hpos := List.length_pos_iff.mpr hne
  unfold median
  simp only
  split_ifs with hodd
  · rw [show (ordered.length - 1) / 2 = ordered.length / 2 by omega]
    exact ⟨le_rfl, le_rfl⟩
  · have hmiddle := getD_le_getD h (show ordered.length / 2 - 1 ≤ ordered.length / 2 by omega) (by omega)
    rw [show (ordered.length - 1) / 2 = ordered.length / 2 - 1 by omega]
    unfold half
    split_ifs <;> omega

end Ordered

/-- The place behind some tenths of at least so many values is one of theirs. -/
lemma getElem?_tenths {count few : ℕ} {ordered : List ℤ} (hmany : few ≤ ordered.length)
    (hplace : count * ordered.length / 10 - 1 < ordered.length) :
    ordered[count * ordered.length / 10 - 1]? = some (tenths count few ordered) := by
  rw [tenths, if_neg (by omega), List.getD_eq_getElem _ _ hplace, List.getElem?_eq_getElem hplace]

/-! ## Thresholds -/

lemma eight_le_warnAt (values : List ℤ) : 8 ≤ (cutoffs values).warnAt := by
  unfold cutoffs
  simp only
  split_ifs
  · decide
  · exact le_max_left _ _

/-- **Warnings do not begin above the first cutoff.** -/
lemma warnAt_le_p1 (values : List ℤ) : (cutoffs values).warnAt ≤ (cutoffs values).p1 := by
  have hsorted := pairwise_mergeSort_int values
  unfold cutoffs
  simp only
  split_ifs with hfew
  · exact le_max_of_le_left (by decide)
  · have hne : values.mergeSort ≠ [] := by
      rintro hnil
      simp [hnil] at hfew
    have hmiddle := (median_bounds hsorted hne).2
    -- the place behind eight tenths of the values is not before the middle
    have hplace := getD_le_getD hsorted (i := values.mergeSort.length / 2)
      (j := 8 * values.mergeSort.length / 10 - 1) (by omega) (by omega)
    rw [tenths, if_neg hfew]
    exact max_le (le_max_of_le_left (by decide)) (le_max_of_le_right (hmiddle.trans hplace))

/-- **Warnings do not begin below what was found**, if at least five values were. -/
lemma le_warnAt {values : List ℤ} {bound : ℤ} (hmany : 5 ≤ values.length) (h : ∀ value ∈ values, bound ≤ value) :
    bound ≤ (cutoffs values).warnAt := by
  have hlength : values.mergeSort.length = values.length := List.length_mergeSort values
  have hne : values.mergeSort ≠ [] := by
    rintro hnil
    simp [hnil] at hlength
    omega
  have hplace : (values.mergeSort.length - 1) / 2 < values.mergeSort.length := by omega
  have hmember : values.mergeSort.getD ((values.mergeSort.length - 1) / 2) 0 ∈ values := by
    rw [List.getD_eq_getElem _ _ hplace]
    exact List.mem_mergeSort.mp (List.getElem_mem hplace)
  unfold cutoffs
  simp only
  rw [if_neg (by omega)]
  exact le_max_of_le_right ((h _ hmember).trans (median_bounds (pairwise_mergeSort_int values) hne).1)

/-! ## Changes of rules -/

/-- **A value in a section of rules.** -/
def setting? (rules : Datum) (name key : String) : Option Datum :=
  (rules.entry? name).bind fun part => part.entry? key

/-- **Rules that have a section**, or room for one. -/
def HasSection (rules : Datum) (name : String) : Prop :=
  ∃ entries, rules = .dict entries ∧ ∀ d, rules.entry? name = some d → ∃ part, d = .dict part

/-- Rules with a value in a section have the section. -/
lemma HasSection.of_setting? {rules value : Datum} {name key : String} (h : setting? rules name key = some value) :
    HasSection rules name := by
  obtain ⟨d, hd, hvalue⟩ := Option.bind_eq_some_iff.mp h
  obtain ⟨entries, rfl⟩ : ∃ entries, rules = .dict entries := by
    cases rules <;> first | exact ⟨_, rfl⟩ | cases hd
  obtain ⟨part, rfl⟩ : ∃ part, d = .dict part := by
    cases d <;> first | exact ⟨_, rfl⟩ | cases hvalue
  exact ⟨entries, rfl, fun d' hd' => ⟨part, Option.some.inj (hd'.symm.trans hd)⟩⟩

namespace Edit

variable {α β : Type}

/-- A change in two parts, the first of which succeeds. -/
lemma run_bind_ok {e : Edit α} {rules changed : Datum} {x : α} (h : e.run.run rules = (.ok x, changed))
    (next : α → Edit β) : (e >>= next).run.run rules = (next x).run.run changed := by
  change ExceptT.bindCont next (e.run.run rules).1 (e.run.run rules).2 = _
  rw [h]
  rfl

/-- A section that is there is told; one that is missing is made. -/
lemma run_section_ (name : String) (entries : List (Datum × Datum)) :
    (section_ name).run.run (.dict entries) =
      match lookup (.text name) entries with
      | some d => (.ok d, .dict entries)
      | none => (.ok (.dict []), .dict (insert (.text name) (.dict []) entries)) := by
  change (match lookup (.text name) entries with | some d => _ | none => _ : Edit Datum).run.run _ = _
  cases lookup (.text name) entries <;> rfl

/-- **A value that is set in a section is found there**, with the values that were there before. -/
lemma exists_run_put {rules : Datum} {name : String} (h : HasSection rules name) (key : String) (value : Datum) :
    ∃ changed, (put name key value).run.run rules = (.ok (), changed) ∧ HasSection changed name ∧
      ∀ other, setting? changed name other = if other = key then some value else setting? rules name other := by
  obtain ⟨entries, rfl, hpart⟩ := h
  have hput : ∃ part entries', (section_ name).run.run (.dict entries) = (.ok (.dict part), .dict entries') ∧
      ∀ other, lookup (.text other) part = setting? (.dict entries) name other := by
    rw [run_section_]
    cases hlookup : lookup (.text name) entries with
    | none => exact ⟨[], _, rfl, fun other => by simp [setting?, entry?, hlookup, lookup]⟩
    | some d =>
      obtain ⟨part, rfl⟩ := hpart d hlookup
      exact ⟨part, entries, rfl, fun other => by simp [setting?, entry?, hlookup]⟩
  obtain ⟨part, entries', hsection, hsame⟩ := hput
  refine ⟨.dict (insert (.text name) (.dict (insert (.text key) value part)) entries'), ?_,
    ⟨_, rfl, fun d hd => ?_⟩, fun other => ?_⟩
  · exact run_bind_ok hsection _
  · rw [ entry?, lookup_insert_text, if_pos rfl] at hd
    exact ⟨_, (Option.some.inj hd).symm⟩
  · rw [← hsame other]
    simp [setting?, entry?, lookup_insert_text]

/-- **A change of rules that leaves a section alone**, whether or not it succeeds. -/
def Spares (e : Edit α) (name : String) : Prop :=
  ∀ rules, entry? (e.run.run rules).2 name = rules.entry? name

lemma spares_ofResult (r : Except Fault α) (name : String) : (ofResult r).Spares name := fun _ => rfl

lemma spares_get (name : String) : (get : Edit Datum).Spares name := fun _ => rfl

lemma Spares.bind {e : Edit α} {next : α → Edit β} {name : String} (h : e.Spares name)
    (hnext : ∀ x, (next x).Spares name) : (e >>= next).Spares name := by
  intro rules
  change entry? (ExceptT.bindCont next (e.run.run rules).1 (e.run.run rules).2).2 name = _
  rw [← h rules]
  cases (e.run.run rules).1 with
  | ok x => exact hnext x _
  | error f => rfl

variable {name other : String}

/-- A section that is made is not another one. -/
lemma spares_section_ (hne : other ≠ name) : (section_ name).Spares other := by
  intro rules
  cases rules with
  | dict entries =>
    rw [run_section_]
    cases lookup (.text name) entries with
    | some d => rfl
    | none => simp [ entry?, lookup_insert_text, hne]
  | _ => rfl

lemma spares_put (hne : other ≠ name) (key : String) (value : Datum) : (put name key value).Spares other := by
  refine (spares_section_ hne).bind fun _ => (spares_ofResult _ _).bind fun part => ?_
  intro rules
  cases rules with
  | dict entries => exact (lookup_insert_text ..).trans (if_neg hne)
  | _ => rfl

end Edit

/-- The threshold of similarity is no threshold of complexity. -/
lemma spares_setSimilarity (duplicates : ℕ) : (setSimilarity duplicates).Spares "complexity" :=
  (Edit.spares_get _).bind fun _ => (Edit.spares_ofResult _ _).bind fun _ => (Edit.spares_ofResult _ _).bind fun _ =>
    (Edit.spares_ofResult _ _).bind fun _ => Edit.spares_put (by decide) _ _

/-- Nor is a weight. -/
lemma spares_raisePerformance : raisePerformance.Spares "complexity" :=
  (Edit.spares_section_ (by decide)).bind fun _ => (Edit.spares_ofResult _ _).bind fun _ =>
    (Edit.spares_ofResult _ _).bind fun _ => Edit.spares_put (by decide) _ _

/-- **Rules that hold the thresholds of complexity.** -/
structure Holds (rules : Datum) (c : Cutoffs) : Prop where
  warnAt : setting? rules "complexity" "warn_at" = some (.int c.warnAt)
  p1 : setting? rules "complexity" "p1_cutoff" = some (.int c.p1)
  p0 : setting? rules "complexity" "p0_cutoff" = some (.int c.p0)

lemma exists_run_setCutoffs {rules : Datum} (h : HasSection rules "complexity") (c : Cutoffs) :
    ∃ changed, (setCutoffs c).run.run rules = (.ok (), changed) ∧ Holds changed c := by
  obtain ⟨rules₁, hrun₁, hsection₁, hset₁⟩ := Edit.exists_run_put h "warn_at" (.int c.warnAt)
  obtain ⟨rules₂, hrun₂, hsection₂, hset₂⟩ := Edit.exists_run_put hsection₁ "p1_cutoff" (.int c.p1)
  obtain ⟨rules₃, hrun₃, -, hset₃⟩ := Edit.exists_run_put hsection₂ "p0_cutoff" (.int c.p0)
  refine ⟨rules₃, ?_, ?_, ?_, ?_⟩
  · rw [setCutoffs, Edit.run_bind_ok hrun₁, Edit.run_bind_ok hrun₂, hrun₃]
  all_goals simp [hset₃, hset₂, hset₁]

/-- **The thresholds that stand in tuned rules** are those of the values that were found. -/
lemma holds_adjust {values : List ℤ} (hne : values ≠ []) (duplicates : ℕ) (dependents : List ℕ) {rules : Datum}
    (h : HasSection rules "complexity") :
    Holds ((adjust values duplicates dependents).run.run rules).2 (cutoffs values) := by
  obtain ⟨changed, hrun, hholds⟩ := exists_run_setCutoffs h (cutoffs values)
  have hrest : (do setSimilarity duplicates; if isConcentrated dependents then raisePerformance : Edit Unit).Spares
      "complexity" := by
    refine (spares_setSimilarity duplicates).bind fun _ => ?_
    split_ifs
    · exact spares_raisePerformance
    · exact fun _ => rfl
  have hsame : entry? ((adjust values duplicates dependents).run.run rules).2 "complexity" =
      changed.entry? "complexity" := by
    rw [← hrest changed, adjust, if_neg (by simpa using hne), Edit.run_bind_ok hrun]
  refine ⟨?_, ?_, ?_⟩
  all_goals rw [setting?, hsame]
  · exact hholds.warnAt
  · exact hholds.p1
  · exact hholds.p0

/-- **Tuned thresholds are ordered.** The places from which the cutoffs are read are places of the ordered values,
and what tuning leaves in rules that have a section on complexity, or none yet, is a threshold of warnings from eight
on, a first cutoff that is not below it or below twelve, and a second cutoff that is greater by two at least. -/
theorem tuned_cutoffs_ordered (values : List ℤ) (hne : values ≠ []) :
    (5 ≤ values.length → 1 ≤ 8 * values.length / 10 ∧
      values.mergeSort[8 * values.length / 10 - 1]? = some (tenths 8 5 values.mergeSort)) ∧
    (10 ≤ values.length → 1 ≤ 9 * values.length / 10 ∧
      values.mergeSort[9 * values.length / 10 - 1]? = some (tenths 9 10 values.mergeSort)) ∧
    ∀ duplicates dependents rules, HasSection rules "complexity" → ∃ warnAt p1 p0 : ℤ,
      Holds ((adjust values duplicates dependents).run.run rules).2 ⟨warnAt, p1, p0⟩ ∧
        8 ≤ warnAt ∧ warnAt ≤ p1 ∧ 12 ≤ p1 ∧ p1 + 2 ≤ p0 := by
  have hlength : values.mergeSort.length = values.length := List.length_mergeSort values
  refine ⟨fun hmany => ⟨by omega, ?_⟩, fun hmany => ⟨by omega, ?_⟩, fun duplicates dependents rules hsection => ?_⟩
  · rw [← hlength]
    exact getElem?_tenths (by omega) (by omega)
  · rw [← hlength]
    exact getElem?_tenths (by omega) (by omega)
  · exact ⟨_, _, _, holds_adjust hne duplicates dependents hsection, eight_le_warnAt values, warnAt_le_p1 values,
      le_max_left _ _, le_max_left _ _⟩

/-- Five values, rules that have no section yet, and the place of the first cutoff. -/
theorem tuned_cutoffs_of_five :
    ([10, 11, 12, 15, 31] : List ℤ).mergeSort[3]? = some (tenths 8 5 [10, 11, 12, 15, 31].mergeSort) ∧
      ∃ warnAt p1 p0 : ℤ, Holds ((adjust [10, 11, 12, 15, 31] 0 []).run.run (.dict [])).2 ⟨warnAt, p1, p0⟩ ∧
        8 ≤ warnAt ∧ warnAt ≤ p1 ∧ 12 ≤ p1 ∧ p1 + 2 ≤ p0 := by
  obtain ⟨hfive, -, hrules⟩ := tuned_cutoffs_ordered [10, 11, 12, 15, 31] (by decide)
  exact ⟨(hfive (by decide)).2, hrules 0 [] _ ⟨[], rfl, fun d hd => nomatch hd⟩⟩

end CodeAudit.Tuning
