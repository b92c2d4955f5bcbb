import CodeAudit.Analysis.Basic
import CodeAudit.Proofs.Number.Exact
import CodeAudit.Proofs.Outcome

/-!
# Scoring what the detectors find

A raw finding is a value with attributes, and scoring one can fail wherever an attribute is missing or has the
wrong kind. The findings of the detectors have all attributes that are asked for, so only a threshold that is no
usable number makes their scoring fail.

## Main definitions

* `Quantity.unit` — a quantity moved into the unit interval.
* `Datum.Divides` — a threshold by which complexities can be measured.

## Main results

* `ScoredFinding.exists_groups` — the scored findings come in groups, one for each category.
* `Findings.exists_ofAllRaw` — all that the detectors find can be scored.
-/

namespace CodeAudit

open Outcome Score Datum Number ScoredFinding List

/-! ## Quantities -/

section Quantity

variable {α : Type} [Quantity α]

/-- A quantity moved into the unit interval. -/
def Quantity.unit (x : α) : α :=
  if Quantity.less x (Quantity.fraction 0 1) then Quantity.fraction 0 1
  else if Quantity.less (Quantity.fraction 1 1) x then Quantity.fraction 1 1
  else x

lemma clamp_eq (x : α) : clamp x = .ok (Quantity.unit x) := by
  change (if Quantity.less x (Quantity.fraction 0 1) then Except.ok (Quantity.fraction 0 1)
    else if Quantity.less (Quantity.fraction 1 1) x then Except.ok (Quantity.fraction 1 1)
    else Except.ok x) = _
  unfold Quantity.unit
  split_ifs <;> rfl

/-- Every quantity has a severity. -/
lemma Severity.exists_ofScore (x : α) : ∃ severity, Severity.ofScore x = .ok severity := by
  unfold Severity.ofScore
  simp only [Scalar.ordered, bind, Except.bind]
  split_ifs
  all_goals exact ⟨_, rfl⟩

lemma Score.ofWeight_eq (weight : α) : ofWeight weight = .ok (Quantity.unit weight) :=
  clamp_eq weight

lemma Score.duplication_eq (similarity weight : α) :
    duplication similarity weight = .ok (Quantity.unit (Quantity.mul similarity weight)) :=
  clamp_eq _

/-- How far a complexity is above a threshold, in units of twice the threshold. -/
def Quantity.excess (value threshold : α) : α :=
  let x := Quantity.div (Quantity.sub value threshold) (Quantity.mul threshold (Quantity.fraction 2 1))
  if Quantity.less (Quantity.fraction 0 1) x then x else Quantity.fraction 0 1

/-- A complexity can be scored unless twice the threshold is zero. -/
lemma Score.complexity_eq (value weight threshold : α) : complexity value weight threshold =
    if Quantity.equal (Quantity.mul threshold (Quantity.fraction 2 1)) (Quantity.fraction 0 1) then
      .error .divisionByZero
    else .ok (Quantity.unit (Quantity.mul (Quantity.excess value threshold) weight)) := by
  unfold complexity
  simp only [Scalar.sub, Scalar.mul, Scalar.div, Scalar.ordered, Scalar.fraction, bind, Except.bind, clamp_eq]
  split_ifs <;> rfl

end Quantity

/-! ## A single finding -/

namespace ScoredFinding

section

variable {α : Type} [Quantity α] {threshold f : Datum} {category : Category} {j : Judgement α} {place : Where}

variable {fix file : String} {id : Datum} {first last : ℤ} {s : ScoredFinding α}

/-- A finding can be scored if it can be judged, has an identifier, and tells a file and lines; its score is for that
place. -/
lemma exists_ofRaw_at (hjudge : judge threshold category f = .ok (j, .ok place))
    (hfix : advice (some category) (.object j.details) = .ok fix) (hid : required f "id" = .ok id)
    (hfirst : place.firstLine.toInt = .ok first) (hlast : place.lastLine.toInt = .ok last)
    (hfile : Lenient.trimmed place.file = .ok file) :
    ∃ s : ScoredFinding α, ofRaw threshold category f = .ok s ∧ s.file = (if file.isEmpty then j.fallback else file) ∧
      s.firstLine = max 1 first ∧ s.lastLine = max 1 last := by
  obtain ⟨severity, hseverity⟩ := Severity.exists_ofScore j.score
  unfold ofRaw
  simp only [hjudge, hfix, hid, hseverity, lineOf, hfirst, hlast, hfile, bind, Except.bind, pure, Except.pure]
  exact ⟨_, rfl, rfl, rfl, rfl⟩

lemma exists_ofRaw (hjudge : judge threshold category f = .ok (j, .ok place))
    (hfix : advice (some category) (.object j.details) = .ok fix) (hid : required f "id" = .ok id)
    (hfirst : place.firstLine.toInt = .ok first) (hlast : place.lastLine.toInt = .ok last)
    (hfile : Lenient.trimmed place.file = .ok file) :
    ∃ s : ScoredFinding α, ofRaw threshold category f = .ok s := by
  obtain ⟨s, hs, -⟩ := exists_ofRaw_at hjudge hfix hid hfirst hlast hfile
  exact ⟨s, hs⟩

/-- What a scored finding stems from: what it was judged by, and where it is. -/
structure Stems (threshold : Datum) (category : Category) (f : Datum) (j : Judgement α) (place : Where)
    (s : ScoredFinding α) : Prop where
  judged : judge threshold category f = .ok (j, .ok place)
  advised : ∃ fix, advice (some category) (.object j.details) = .ok fix
  id : required f "id" = .ok s.id
  category_eq : s.category = category
  score : s.score = j.score
  severity : Severity.ofScore j.score = .ok s.severity
  firstLine : ∃ n, place.firstLine.toInt = .ok n ∧ s.firstLine = max 1 n
  lastLine : ∃ n, place.lastLine.toInt = .ok n ∧ s.lastLine = max 1 n
  file : ∃ file, Lenient.trimmed place.file = .ok file
  extra : s.extra = j.extra

/-- **What every scored finding stems from.** -/
lemma exists_stems (h : ofRaw threshold category f = .ok s) : ∃ j place, Stems threshold category f j place s := by
  unfold ofRaw at h
  obtain ⟨⟨j, place⟩, hjudge, h⟩ := bind_eq_ok.mp h
  simp only [bind_eq_ok] at h
  obtain ⟨fix, hfix, id, hid, place', hplace, severity, hseverity, first, hfirst, last, hlast, file, hfile, h⟩ := h
  obtain rfl := Except.ok.inj h
  have hline : ∀ {d : Datum} {n : ℤ}, lineOf d = .ok n → ∃ k, d.toInt = .ok k ∧ n = max 1 k := by
    intro d n hn
    obtain ⟨k, hk, hn⟩ := bind_eq_ok.mp hn
    exact ⟨k, hk, (Except.ok.inj hn).symm⟩
  subst hplace
  exact ⟨j, place', hjudge, ⟨fix, hfix⟩, hid, rfl, rfl, hseverity, hline hfirst, hline hlast, ⟨file, hfile⟩, rfl⟩

/-- A scored finding has the score and the category of its judgement. -/
lemma of_ofRaw (h : ofRaw threshold category f = .ok s) :
    ∃ j : Judgement α, ∃ place, judge threshold category f = .ok (j, place) ∧ s.score = j.score ∧
      s.category = category := by
  obtain ⟨j, place, hstems⟩ := exists_stems h
  exact ⟨j, .ok place, hstems.judged, hstems.score, hstems.category_eq⟩

/-! ## Scores -/

/-- The score of a raw finding. A threshold of the run goes before that of the finding. -/
def scoreOf (α : Type) [Quantity α] (threshold : Datum) (category : Category) (f : Datum) : Except Fault α :=
  match category with
  | .complexity => do
    let value ← (f.fieldOr "value" (.float 0)).toFloat
    let bound ← (threshold.orElse (f.fieldOr "threshold" (.int 10))).toFloat
    complexity (Quantity.ofFloat value) (Weights.standardOf .complexity) (Quantity.ofFloat bound)
  | .duplication => do
    let similarity ← (f.fieldOr "similarity" (.float 0)).toFloat
    duplication (Quantity.ofFloat similarity) (Weights.standardOf .duplication)
  | category => ofWeight (Weights.standardOf category)

/-- A judgement with another score. -/
def Judgement.rescored {β : Type} (j : Judgement α) (score : β) : Judgement β :=
  { score, title := j.title, details := j.details, extra := j.extra, fallback := j.fallback }

section

variable {β : Type} [Quantity β] (score : β)

lemma of_judgeByWeight {title : String} {extra : List (String × Datum)}
    (h : judgeByWeight category title extra f = .ok j) :
    ofWeight (Weights.standardOf category) = .ok j.score ∧ j.extra = extra ∧
      (ofWeight (Weights.standardOf category) = .ok score →
        judgeByWeight category title extra f = .ok (j.rescored score)) := by
  obtain ⟨own, hown, h⟩ := bind_eq_ok.mp h
  obtain ⟨t, ht, h⟩ := bind_eq_ok.mp h
  obtain rfl := Except.ok.inj h
  refine ⟨hown, rfl, fun hscore => ?_⟩
  rw [judgeByWeight, hscore, ht]
  rfl

/-- **Only the score of a judgement depends on the kind of numbers.** -/
lemma of_judge {place : Except Fault Where} (h : judge threshold category f = .ok (j, place)) :
    scoreOf α threshold category f = .ok j.score ∧
      (scoreOf β threshold category f = .ok score → judge threshold category f = .ok (j.rescored score, place)) := by
  cases category with
  | complexity =>
    obtain ⟨j', hj, h⟩ := bind_eq_ok.mp h
    obtain ⟨rfl, rfl⟩ := Prod.mk.inj (Except.ok.inj h)
    obtain ⟨value, hvalue, hj⟩ := bind_eq_ok.mp hj
    simp only [bind_eq_ok] at hj
    obtain ⟨bound, hbound, own, hown, n, hn, m, hm, t, ht, hj⟩ := hj
    obtain rfl := Except.ok.inj hj
    refine ⟨bind_eq_ok.mpr ⟨value, hvalue, bind_eq_ok.mpr ⟨bound, hbound, hown⟩⟩, fun hscore => ?_⟩
    simp only [scoreOf, hvalue, hbound, bind, Except.bind] at hscore
    simp only [judge, judgeComplexity, hvalue, hbound, hscore, hn, hm, ht, bind, Except.bind, pure, Except.pure]
    rfl
  | duplication =>
    obtain ⟨⟨j', place'⟩, hj, h⟩ := bind_eq_ok.mp h
    obtain ⟨rfl, rfl⟩ := Prod.mk.inj (Except.ok.inj h)
    obtain ⟨similarity, hsimilarity, hj⟩ := bind_eq_ok.mp hj
    obtain ⟨own, hown, hj⟩ := bind_eq_ok.mp hj
    obtain ⟨files, hfiles, hj⟩ := bind_eq_ok.mp hj
    obtain ⟨t, ht, hj⟩ := bind_eq_ok.mp hj
    obtain ⟨rfl, rfl⟩ := Prod.mk.inj (Except.ok.inj hj)
    refine ⟨bind_eq_ok.mpr ⟨similarity, hsimilarity, hown⟩, fun hscore => ?_⟩
    simp only [scoreOf, hsimilarity, bind, Except.bind] at hscore
    simp only [judge, judgeDuplication, hsimilarity, hscore, hfiles, ht, bind, Except.bind, pure, Except.pure]
    rfl
  | security | performance | documentation | testing =>
    obtain ⟨j', hj, h⟩ := bind_eq_ok.mp h
    obtain ⟨rfl, rfl⟩ := Prod.mk.inj (Except.ok.inj h)
    obtain ⟨hown, -, hother⟩ := of_judgeByWeight score hj
    refine ⟨hown, fun hscore => ?_⟩
    simp only [judge, hother hscore, bind, Except.bind]
    rfl

/-- A judgement has the score of its finding. -/
lemma scoreOf_judge {place : Except Fault Where} (h : judge threshold category f = .ok (j, place)) :
    scoreOf α threshold category f = .ok j.score :=
  (of_judge j.score h).1

end

end

/-! ## What the detectors find -/

/-- A text always gives a title. -/
lemma exists_title (default message : String) : ∃ title, Lenient.title default (.text message) = .ok title := by
  unfold Lenient.title Lenient.trimmed orElse
  split_ifs
  all_goals exact ⟨_, rfl⟩

lemma exists_trimmed (s : String) : ∃ t, Lenient.trimmed (.text s) = .ok t := by
  unfold Lenient.trimmed orElse
  split_ifs
  all_goals exact ⟨_, rfl⟩

/-- The lines of a span are integers. -/
lemma exists_span (d : Datum) (n : ℤ) : ∃ first last : ℤ, Lenient.span d (.int n) = (.int first, .int last) := by
  have hint : ∀ x : Datum, ∃ k, Lenient.toInt x (.int n) = .ok k := by
    intro x
    unfold Lenient.toInt Lenient.instead
    split
    · exact ⟨_, rfl⟩
    · exact ⟨n, rfl⟩
  unfold Lenient.span
  split
  · exact ⟨n, n, rfl⟩
  · rename_i x _
    obtain ⟨k, hk⟩ := hint x
    exact ⟨k, k, by simp [hk, bind, Except.bind, pure, Except.pure]⟩
  · rename_i x y _ _
    obtain ⟨k, hk⟩ := hint x
    obtain ⟨l, hl⟩ := hint y
    exact ⟨k, l, by simp [hk, hl, bind, Except.bind, pure, Except.pure]⟩
  · obtain ⟨k, hk⟩ := hint d
    exact ⟨k, k, by simp [hk, bind, Except.bind, pure, Except.pure]⟩

section

variable {threshold : Datum}

/-- A finding that counts as much as its category weighs can be judged if its message is a text. -/
lemma exists_judgeByWeight (category : Category) (title : String) (extra : List (String × Datum)) {f : Datum}
    {message : String} (hmessage : f.fieldOr "message" .null = .text message) :
    ∃ j : Judgement Float, judgeByWeight category title extra f = .ok j ∧ j.details = extra := by
  obtain ⟨t, ht⟩ := exists_title title message
  unfold judgeByWeight titleOf
  rw [ofWeight_eq, hmessage, ht]
  exact ⟨_, rfl, rfl⟩

lemma exists_ofRaw_security (f : SecurityFinding) :
    ∃ s : ScoredFinding Float, ofRaw threshold .security f.toRecord = .ok s := by
  obtain ⟨j, hj, -⟩ := exists_judgeByWeight .security "Potential insecure call" [] (f := f.toRecord) rfl
  obtain ⟨file, hfile⟩ := exists_trimmed f.file
  have hjudge : judge threshold .security f.toRecord =
      .ok (j, .ok ⟨.text f.file, .int f.firstLine, .int f.lastLine⟩) := by
    simp only [judge, hj, bind, Except.bind, pure, Except.pure]
    rfl
  exact exists_ofRaw hjudge rfl rfl rfl rfl hfile

lemma exists_ofRaw_performance (f : PerformanceFinding) :
    ∃ s : ScoredFinding Float, ofRaw threshold .performance f.toRecord = .ok s := by
  obtain ⟨j, hj, hdetails⟩ := exists_judgeByWeight .performance ("Possible performance issue: " ++ f.kind)
    [("kind", .text f.kind)] (f := f.toRecord) rfl
  obtain ⟨file, hfile⟩ := exists_trimmed f.file
  have hjudge : judge threshold .performance f.toRecord =
      .ok (j, .ok ⟨.text f.file, .int f.firstLine, .int f.lastLine⟩) := by
    have hkind : f.toRecord.fieldOr "kind" (.text "pattern") = .text f.kind := rfl
    simp only [judge, hkind, Datum.str, hj, bind, Except.bind, pure, Except.pure]
    rfl
  have hfix : ∃ fix, advice (some .performance) (.object j.details) = .ok fix := by
    rw [hdetails]
    have hdetail : detail (.object [("kind", .text f.kind)]) "kind" (.text "") = .ok (.text f.kind) := by
      simp [detail, Datum.object, orElse, Datum.truthy, entriesAs, Datum.lookup, Datum.equals, bind,
        Except.bind, pure, Except.pure]
    simp only [advice, hdetail, speedAdvice, unhashableKind?, bind, Except.bind]
    split_ifs <;> exact ⟨_, rfl⟩
  obtain ⟨fix, hfix⟩ := hfix
  exact exists_ofRaw hjudge hfix rfl rfl rfl hfile

lemma exists_ofRaw_documentation (f : DocumentationFinding) :
    ∃ s : ScoredFinding Float, ofRaw threshold .documentation f.toRecord = .ok s := by
  obtain ⟨j, hj, -⟩ := exists_judgeByWeight .documentation ("Missing " ++ f.kind ++ " documentation")
    [("kind", .text f.kind)] (f := f.toRecord) rfl
  obtain ⟨file, hfile⟩ := exists_trimmed f.file
  have hjudge : judge threshold .documentation f.toRecord =
      .ok (j, .ok ⟨.text f.file, .int f.firstLine, .int f.lastLine⟩) := by
    have hkind : f.toRecord.fieldOr "kind" (.text "docs") = .text f.kind := rfl
    simp only [judge, hkind, Datum.str, hj, bind, Except.bind, pure, Except.pure]
    rfl
  exact exists_ofRaw hjudge rfl rfl rfl rfl hfile

lemma exists_ofRaw_testing (f : TestGap) :
    ∃ s : ScoredFinding Float, ofRaw threshold .testing f.toRecord = .ok s := by
  obtain ⟨j, hj, hdetails⟩ := exists_judgeByWeight .testing "Missing mapped test"
    [("expected_test", .text f.expected)] (f := f.toRecord) rfl
  obtain ⟨file, hfile⟩ := exists_trimmed f.file
  have hjudge : judge threshold .testing f.toRecord = .ok (j, .ok ⟨.text f.file, .int 1, .int 1⟩) := by
    have hexpected : f.toRecord.fieldOr "expected_test" (.text "") = .text f.expected := rfl
    simp only [judge, hexpected, hj, bind, Except.bind, pure, Except.pure]
    rfl
  have hfix : ∃ fix, advice (some .testing) (.object j.details) = .ok fix := by
    rw [hdetails]
    exact ⟨_, rfl⟩
  obtain ⟨fix, hfix⟩ := hfix
  exact exists_ofRaw hjudge hfix rfl rfl rfl hfile

lemma exists_judge_duplication (f : DuplicateFinding) {first last : Datum}
    (hspan : Lenient.span (f.toRecord.fieldOr "lines" .null) (.int 1) = (first, last)) :
    ∃ j : Judgement Float, judge threshold .duplication f.toRecord = .ok (j, .ok ⟨.text f.files.1, first, last⟩) ∧
      j.fallback = f.files.1 ∧ ∃ fix, advice (some .duplication) (.object j.details) = .ok fix := by
  obtain ⟨t, ht⟩ := exists_title ("Near-duplicate code (Jaccard " ++ Number.fixed 2 f.similarity ++ ")") f.message
  have hsimilarity : (f.toRecord.fieldOr "similarity" (.float 0)).toFloat = .ok f.similarity := rfl
  have hfiles : filesOf f.toRecord = .ok (.text f.files.1, f.files.2) := rfl
  have hlines : (f.toRecord.fieldOr "lines" .null == .null) = false := by
    change Datum.equals (.tuple _) .null = false
    simp [Datum.equals, numeric?]
  have htitle : titleOf f.toRecord ("Near-duplicate code (Jaccard " ++ Number.fixed 2 f.similarity ++ ")") = .ok t := ht
  simp only [judge, judgeDuplication, hsimilarity, duplication_eq, hfiles, hlines, hspan, htitle, bind,
    Except.bind, pure, Except.pure, Bool.false_eq_true, if_false]
  exact ⟨_, rfl, rfl, _, rfl⟩

lemma exists_ofRaw_duplication (f : DuplicateFinding) :
    ∃ s : ScoredFinding Float, ofRaw threshold .duplication f.toRecord = .ok s := by
  obtain ⟨file, hfile⟩ := exists_trimmed f.files.1
  obtain ⟨first, last, hspan⟩ := exists_span (f.toRecord.fieldOr "lines" .null) 1
  obtain ⟨j, hjudge, -, fix, hfix⟩ := exists_judge_duplication f hspan
  exact exists_ofRaw hjudge hfix rfl rfl rfl hfile

end

end ScoredFinding

/-! ## Complex functions -/

/-- A threshold by which complexities can be measured: it is a finite number, and twice that number is not
zero. -/
def Datum.Divides (threshold : Datum) : Prop :=
  threshold.truthy = true ∧ ∃ x n, threshold.toFloat = .ok x ∧ floatToInt x = .ok n ∧ (x * 2 == 0) = false

/-- A finding whose lines are integers and whose value can be a double. -/
structure ComplexityFinding.Plain (f : ComplexityFinding) : Prop where
  lines : ∃ first last, f.firstLine = .int first ∧ f.lastLine = .int last
  value : f.value.natAbs ≤ greatest + 1

lemma ScoredFinding.exists_ofRaw_complexity {threshold : Datum} (hthreshold : threshold.Divides)
    {f : ComplexityFinding} (hf : f.Plain) :
    ∃ s : ScoredFinding Float, ofRaw threshold .complexity f.toRecord = .ok s := by
  obtain ⟨htruthy, bound, n, hbound, hn, hnonzero⟩ := hthreshold
  obtain ⟨first, last, hfirst, hlast⟩ := hf.lines
  obtain ⟨file, hfile⟩ := exists_trimmed f.file
  have hvalue : (f.toRecord.fieldOr "value" (.float 0)).toFloat = .ok (ofInt f.value) :=
    intToFloat_eq_ok hf.value
  obtain ⟨m, hm⟩ := exists_floatToInt (isFinite_ofInt hf.value)
  obtain ⟨score, hscore⟩ : ∃ score, complexity (ofInt f.value) (Weights.standardOf .complexity) bound =
      .ok score := ⟨_, (complexity_eq _ _ bound).trans (if_neg (Bool.eq_false_iff.mp hnonzero))⟩
  obtain ⟨t, ht⟩ := exists_title ("High cyclomatic complexity: " ++ decimalInt m ++ " (≥ " ++
    decimalInt n ++ ")") f.message
  have hjudge : judge threshold .complexity f.toRecord =
      .ok ({ score, title := t, extra := [("value", .float (ofInt f.value)), ("threshold", .float bound)] },
        .ok ⟨.text f.file, f.firstLine, f.lastLine⟩) := by
    have horElse : threshold.orElse (f.toRecord.fieldOr "threshold" (.int 10)) = threshold := by
      rw [orElse, if_pos htruthy]
    have htitle : titleOf f.toRecord ("High cyclomatic complexity: " ++ decimalInt m ++ " (≥ " ++
      decimalInt n ++ ")") = .ok t := ht
    have hofFloat : ∀ x : Float, (Quantity.ofFloat x : Float) = x := fun _ => rfl
    simp only [judge, judgeComplexity, hvalue, horElse, hbound, hofFloat, hscore, hm, hn, htitle, bind,
      Except.bind, pure, Except.pure]
    rfl
  exact exists_ofRaw hjudge rfl rfl (by rw [hfirst]; rfl) (by rw [hlast]; rfl) hfile

/-! ## All findings -/

namespace ScoredFinding

section

variable {α : Type} [Quantity α] {threshold : Datum} {raw : RawFindings}

variable {scored : List (ScoredFinding α)}

/-- **The scored findings come in groups**, one for each category. -/
lemma exists_groups (h : ofAllRaw threshold raw = .ok scored) :
    ∃ group : Category → List (ScoredFinding α),
      (∀ c, (raw.of c).mapM (ofRaw threshold c) = .ok (group c)) ∧ scored = Category.all.flatMap group := by
  obtain ⟨groups, hgroups, h⟩ := bind_eq_ok.mp h
  obtain rfl := Except.ok.inj h
  have hmem : ∀ c : Category, c ∈ Category.all := by
    intro c
    cases c <;> decide
  have hgroup : ∀ c, ∃ group : List (ScoredFinding α), (raw.of c).mapM (ofRaw threshold c) = .ok group := by
    intro c
    have hrow := mapM_eq_ok_iff.mp hgroups
    have hc : (raw.of c).mapM (ofRaw threshold c) ∈ groups.map Except.ok := hrow ▸ mem_map_of_mem (hmem c)
    obtain ⟨group, -, hgroup⟩ := mem_map.mp hc
    exact ⟨group, hgroup.symm⟩
  choose group hgroup using hgroup
  refine ⟨group, hgroup, ?_⟩
  rw [mapM_eq_ok fun c _ => hgroup c] at hgroups
  rw [← Except.ok.inj hgroups, flatMap]

/-- The findings of a category are its group. -/
lemma filter_flatMap_group {group : Category → List (ScoredFinding α)}
    (h : ∀ c, (raw.of c).mapM (ofRaw threshold c) = .ok (group c)) (c : Category) :
    (Category.all.flatMap group).filter (·.category = c) = group c := by
  have hcategory : ∀ d, ∀ s ∈ group d, s.category = d := by
    intro d s hs
    obtain ⟨f, -, hf⟩ := exists_of_mem_mapM (h d) hs
    obtain ⟨-, -, -, -, hcategory⟩ := of_ofRaw hf
    exact hcategory
  have hfilter : ∀ d, (group d).filter (·.category = c) = if d = c then group c else [] := by
    intro d
    split_ifs with hd
    · subst hd
      exact filter_eq_self.mpr fun s hs => by simpa using hcategory d s hs
    · exact filter_eq_nil_iff.mpr fun s hs => by simpa [hcategory d s hs] using hd
  rw [filter_flatMap]
  simp only [hfilter]
  cases c <;> simp [Category.all]

/-- If every finding can be scored, all of them can. -/
lemma exists_ofAllRaw (h : ∀ c, ∀ f ∈ raw.of c, ∃ s : ScoredFinding α, ofRaw threshold c f = .ok s) :
    ∃ scored : List (ScoredFinding α), ofAllRaw threshold raw = .ok scored := by
  choose group hgroup using fun c => exists_mapM (h c)
  unfold ofAllRaw
  rw [mapM_eq_ok fun c _ => hgroup c]
  exact ⟨_, rfl⟩

/-- Every scored finding comes from a raw one of its category. -/
lemma exists_raw_of_mem (h : ofAllRaw threshold raw = .ok scored)
    {s : ScoredFinding α} (hs : s ∈ scored) : ∃ c, ∃ f ∈ raw.of c, ofRaw threshold c f = .ok s := by
  obtain ⟨group, hgroup, rfl⟩ := exists_groups h
  obtain ⟨c, -, hs⟩ := mem_flatMap.mp hs
  exact ⟨c, exists_of_mem_mapM (hgroup c) hs⟩

end

end ScoredFinding

/-- **All that the detectors find can be scored.** -/
lemma Findings.exists_ofAllRaw {threshold : Datum} (hthreshold : threshold.Divides) {findings : Findings}
    (hplain : ∀ f ∈ findings.complexity, f.Plain) :
    ∃ scored : List (ScoredFinding Float), ScoredFinding.ofAllRaw threshold findings.raw = .ok scored := by
  refine ScoredFinding.exists_ofAllRaw fun c record hrecord => ?_
  cases c with
  | security =>
    obtain ⟨f, -, rfl⟩ := List.mem_map.mp hrecord
    exact ScoredFinding.exists_ofRaw_security f
  | complexity =>
    obtain ⟨f, hf, rfl⟩ := List.mem_map.mp hrecord
    exact ScoredFinding.exists_ofRaw_complexity hthreshold (hplain f hf)
  | duplication =>
    obtain ⟨f, -, rfl⟩ := List.mem_map.mp hrecord
    exact ScoredFinding.exists_ofRaw_duplication f
  | performance =>
    obtain ⟨f, -, rfl⟩ := List.mem_map.mp hrecord
    exact ScoredFinding.exists_ofRaw_performance f
  | documentation =>
    obtain ⟨f, -, rfl⟩ := List.mem_map.mp hrecord
    exact ScoredFinding.exists_ofRaw_documentation f
  | testing =>
    obtain ⟨f, -, rfl⟩ := List.mem_map.mp hrecord
    exact ScoredFinding.exists_ofRaw_testing f

end CodeAudit
