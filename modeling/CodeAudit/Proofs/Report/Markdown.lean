import CodeAudit.Proofs.Datum
import CodeAudit.Proofs.Number.Order
import CodeAudit.Proofs.Sequence.Sort
import CodeAudit.Report.Write

/-!
# The sections of the report on scored findings

The sections of the report ask findings for attributes, and what is lacking has a default. An analysis hands its
findings over as dictionaries, which have no attributes: every finding is then told by defaults only. If the findings
were handed over as records, the table of the findings with the greatest scores would tell what it should.

## Main definitions

* `Markdown.bareTable`, `Markdown.bareCategories` — sections that tell only how many findings
  there are.
* `Markdown.issueTable`, `Markdown.categoryHeadings` — what the sections should tell.

## Main results

* `Markdown.topIssues_records` — the table of findings that are records.
* `Markdown.report_tells_findings_iff` — the report tells the findings only if there are none.
-/

namespace CodeAudit

open Datum Sequence List

/-- A value without attributes. -/
def Datum.Bare (d : Datum) : Prop :=
  ∀ name, d.field? name = none

lemma Datum.Bare.fieldOr_eq {d : Datum} (h : d.Bare) (name : String) (default : Datum) : d.fieldOr name default =
    default := by
  rw [fieldOr, h name, Option.getD_none]

/-- A scored finding as a dictionary is bare. -/
lemma ScoredFinding.bare_toDatum (f : ScoredFinding Float) : f.toDatum.Bare :=
  fun _ => rfl

/-- A scored finding as a record. -/
def ScoredFinding.toRecord (f : ScoredFinding Float) : Datum :=
  .record (f.coreEntries ++ [("why", .text f.why), ("fix", .text f.fix), ("extra", .object f.extra)])

namespace Markdown

/-! ## Order and number of rows -/

/-- Findings whose scores are numbers are put in the order of decreasing score, and keep their order otherwise. -/
lemma byScore_eq {scored : List Datum} (h : ∀ s ∈ scored, (scoreOf s).isNaN = false) :
    byScore scored = .ok (scored.mergeSort fun s t => decide (Number.rank (scoreOf t) ≤ Number.rank (scoreOf s))) :=
  sortDownM_eq fun s hs t ht => less_float (h s hs) (h t ht)

/-! ## Bare values -/

/-- The row on a bare value. -/
def bareRow : String := "| P3 | 0.00 | issue | :1-1 | Issue |\n"

/-- The line on a bare value. -/
def bareLine : String := "- [P3] Issue — :1-1 — score 0.00\n"

/-- The head of the table of findings. -/
def tableHead : String :=
  "\n## Top issues\n| Severity | Score | Category | Location | Title |\n|---|---:|---|---|---|\n"

/-- **The table of a number of bare values.** -/
def bareTable (n : ℕ) : String :=
  if n = 0 then "\n## Top issues\n" ++ nothingFound
  else tableHead ++ String.join (replicate (min 10 n) bareRow)

/-- **The section on the categories of a number of bare values.** -/
def bareCategories (n : ℕ) : String :=
  if n = 0 then "\n## Per-category\n" ++ nothingFound
  else "\n## Per-category\n" ++ ("\n### Other (" ++ number n ++ ")\n" ++ String.join (replicate (min 5 n) bareLine))

section Bare

variable {d : Datum} {ds : List Datum}

lemma scoreOf_of_bare (h : d.Bare) : scoreOf d = 0 := by
  rw [scoreOf, h.fieldOr_eq]
  rfl

lemma categoryOf_of_bare (h : d.Bare) : categoryOf d = .text "other" :=
  h.fieldOr_eq _ _

lemma location_of_bare (h : d.Bare) : location d = .ok ":1-1" := by
  simp only [location, lineOf, h.fieldOr_eq]
  rfl

lemma issueRow_of_bare (h : d.Bare) : issueRow d = .ok bareRow := by
  have hscore : Number.fixed 2 0 = "0.00" := by decide +kernel
  simp only [issueRow, location_of_bare h, severityOf, scoreOf_of_bare h, titleOf, h.fieldOr_eq, hscore]
  rfl

lemma issueLine_of_bare (h : d.Bare) : issueLine d = .ok bareLine := by
  have hscore : Number.fixed 2 0 = "0.00" := by decide +kernel
  simp only [issueLine, location_of_bare h, severityOf, scoreOf_of_bare h, titleOf, h.fieldOr_eq, hscore]
  rfl

/-- A row of bare values gives the same text again and again. -/
lemma mapM_of_bare {f : Datum → Except Fault String} {text : String} (hf : ∀ d : Datum, d.Bare → f d = .ok text)
    (h : ∀ d ∈ ds, d.Bare) : ds.mapM f = .ok (replicate ds.length text) := by
  rw [Outcome.mapM_eq_ok (g := fun _ => text) fun d hd => hf d (h d hd), map_const']

lemma byScore_of_bare (h : ∀ d ∈ ds, d.Bare) : byScore ds = .ok ds := by
  refine sortDownM_of_level fun s hs t ht => ?_
  rw [scoreOf_of_bare (h s hs), scoreOf_of_bare (h t ht)]
  rfl

/-- **All that the table tells of bare values is their number.** -/
lemma topIssues_of_bare (h : ∀ d ∈ ds, d.Bare) : topIssues (.list ds) = .ok (bareTable ds.length) := by
  unfold topIssues bareTable
  by_cases hempty : ds = []
  · rw [hempty]
    rfl
  · have htruthy : (Datum.list ds).truthy = true := by simp [Datum.truthy, hempty]
    have hlength : ds.length ≠ 0 := by simpa using hempty
    have hfirst : firstOf ds (.int 10) = .ok (ds.take 10) := firstOf_eq_take ds 10
    have hrows : (ds.take 10).mapM issueRow = .ok (replicate (ds.take 10).length bareRow) :=
      mapM_of_bare (fun d hd => issueRow_of_bare hd) fun d hd => h d (mem_of_mem_take hd)
    simp only [htruthy, hlength, Bool.not_true, Bool.false_eq_true, if_false, Datum.items, byScore_of_bare h,
      hfirst, hrows, length_take, bind, Except.bind, pure, Except.pure]
    rfl

/-- Each further bare value joins the group that there is. -/
lemma foldlM_of_bare {step : List (Datum × List Datum) → Datum → Except Fault (List (Datum × List Datum))}
    (hstep : ∀ acc d, d.Bare → step acc d = .ok (addToGroup d acc)) (h : ∀ d ∈ ds, d.Bare) (members : List Datum) :
    ds.foldlM step [(.text "other", members)] = .ok [(.text "other", members ++ ds)] := by
  induction ds generalizing members with
  | nil =>
    rw [append_nil]
    rfl
  | cons d rest ih =>
    have hd := h d mem_cons_self
    have hsame : (Datum.text "other" == categoryOf d) = true := by
      rw [categoryOf_of_bare hd]
      exact equals_text_iff.mpr rfl
    have ih := ih (fun e he => h e (mem_cons_of_mem _ he)) (members ++ [d])
    rw [append_assoc, singleton_append] at ih
    rw [foldlM_cons, hstep _ _ hd, addToGroup, if_pos hsame]
    exact ih

/-- Bare values are all in one group. -/
lemma groups_of_bare (hne : ds ≠ []) (h : ∀ d ∈ ds, d.Bare) : groups ds = .ok [(.text "other", ds)] := by
  cases ds with
  | nil => exact absurd rfl hne
  | cons d rest =>
    have hcategory := categoryOf_of_bare (h d mem_cons_self)
    rw [groups, foldlM_cons, hcategory, addToGroup, hcategory]
    refine foldlM_of_bare (fun acc e he => ?_) (fun e he => h e (mem_cons_of_mem _ he)) [d]
    rw [categoryOf_of_bare he]
    rfl

/-- **All that the section on the categories tells of bare values is their number.** -/
lemma perCategory_of_bare (h : ∀ d ∈ ds, d.Bare) : perCategory (.list ds) = .ok (bareCategories ds.length) := by
  unfold perCategory bareCategories
  by_cases hempty : ds = []
  · rw [hempty]
    rfl
  · have hlength : ds.length ≠ 0 := by simpa using hempty
    have hgroup : sortGroup (.text "other", ds) = .ok (.text "other", ds) := by
      have hlevel : ∀ s ∈ ds, ∀ t ∈ ds, Datum.less (.tuple [.float (-scoreOf s), s.fieldOr "file" (.text "")])
          (.tuple [.float (-scoreOf t), t.fieldOr "file" (.text "")]) = .ok false := by
        intro s hs t ht
        have hzero : Datum.equals (.float (-0)) (.float (-0)) = true := by decide +kernel
        rw [scoreOf_of_bare (h s hs), scoreOf_of_bare (h t ht), (h s hs).fieldOr_eq, (h t ht).fieldOr_eq]
        simp [Datum.less, ordered, ordered.orderedItems, equals_text_iff, hzero, Sign.holds]
      rw [sortGroup, sortByKeyM_of_level hlevel]
      rfl
    have hlines : (ds.take 5).mapM issueLine = .ok (replicate (ds.take 5).length bareLine) :=
      mapM_of_bare (fun d hd => issueLine_of_bare hd) fun d hd => h d (mem_of_mem_take hd)
    have hpart : categoryPart (.int 5) (.text "other", ds) = .ok ("\n### Other (" ++ number ds.length ++ ")\n" ++
        String.join (replicate (min 5 ds.length) bareLine)) := by
      have hheading : heading (.text "other") = .ok "Other" := by
        rw [heading]
        exact congrArg Except.ok (by decide +kernel)
      have hfirst : firstOf ds (.int 5) = .ok (ds.take 5) := firstOf_eq_take ds 5
      simp only [categoryPart, hheading, hfirst, hlines, length_take, bind, Except.bind, pure,
        Except.pure]
      rfl
    have hordered : sortByKeyM Datum.less
        (fun g : Datum × List Datum => .tuple [.int (-g.2.length), g.1]) [(.text "other", ds)] =
      .ok [(.text "other", ds)] := rfl
    simp only [Datum.items, groups_of_bare hempty h, bind, Except.bind, mapM_cons, mapM_nil, hgroup, pure,
      Except.pure, isEmpty_cons, Bool.false_eq_true, if_false, hlength, hordered, hpart]
    simp [String.join]

end Bare

/-! ## What the sections should tell -/

/-- The row on a scored finding. -/
def issueRowOf (s : ScoredFinding Float) : String :=
  "| " ++ s.severity.name ++ " | " ++ Number.fixed 2 s.score ++ " | " ++ s.category.name ++ " | " ++
    (s.file ++ ":" ++ number s.firstLine ++ "-" ++ number s.lastLine) ++ " | " ++ s.title ++ " |\n"

/-- Scored findings in the order of decreasing score; those with one score keep their order. -/
def byDecreasingScore (scored : List (ScoredFinding Float)) : List (ScoredFinding Float) :=
  scored.mergeSort fun s t => decide (t.score ≤ s.score)

/-- **The table of the ten findings with the greatest scores.** -/
def issueTable (scored : List (ScoredFinding Float)) : String :=
  if scored.isEmpty then "\n## Top issues\n" ++ nothingFound
  else tableHead ++ String.join (((byDecreasingScore scored).take 10).map issueRowOf)

/-- The headings in a section. -/
def headings (text : String) : List String :=
  ((text.toList.splitOn '\n').filter ("### ".toList.isPrefixOf ·)).map String.ofList

/-- **The headings of the categories that occur**, with the numbers of their findings. -/
def categoryHeadings (scored : List (ScoredFinding Float)) : List String :=
  (Category.all.filter fun c => scored.any (·.category = c)).map fun c =>
    "### " ++ Text.capitalize c.name ++ " (" ++ number (scored.countP (·.category = c)) ++ ")"

/-! ## Findings as records -/

/-- A finding whose score is a number and whose lines are told. -/
def Located (s : ScoredFinding Float) : Prop :=
  s.score.isNaN = false ∧ s.firstLine ≠ 0 ∧ s.lastLine ≠ 0

lemma scoreOf_toRecord (s : ScoredFinding Float) : scoreOf s.toRecord = s.score := rfl

lemma issueRow_toRecord {s : ScoredFinding Float} (h : Located s) : issueRow s.toRecord = .ok (issueRowOf s) := by
  have hline : ∀ n default : ℤ, n ≠ 0 → ((Datum.int n).orElse (.int default)).toInt = .ok n := by
    intro n default hn
    simp [orElse, Datum.truthy, hn, toInt]
  have hfirst : lineOf s.toRecord "start_line" 1 = .ok s.firstLine := hline s.firstLine 1 h.2.1
  have hlast : lineOf s.toRecord "end_line" s.firstLine = .ok s.lastLine := hline s.lastLine s.firstLine h.2.2
  simp only [issueRow, location, hfirst, hlast, bind, Except.bind, pure, Except.pure]
  rfl

/-- **The table tells findings that are records as it should.** -/
lemma topIssues_records {scored : List (ScoredFinding Float)} (h : ∀ s ∈ scored, Located s) :
    topIssues (.list (scored.map (·.toRecord))) = .ok (issueTable scored) := by
  unfold topIssues issueTable
  by_cases hempty : scored = []
  · rw [hempty]
    rfl
  · have htruthy : (Datum.list (scored.map (·.toRecord))).truthy = true := by simp [Datum.truthy, hempty]
    have hsorted : byScore (scored.map (·.toRecord)) = .ok ((byDecreasingScore scored).map (·.toRecord)) := by
      rw [byScore_eq, byDecreasingScore, map_mergeSort]
      · intro s hs t ht
        rw [scoreOf_toRecord, scoreOf_toRecord, decide_eq_decide]
        exact Number.le_iff_rank_le (h t ht).1 (h s hs).1
      · intro d hd
        obtain ⟨s, hs, rfl⟩ := mem_map.mp hd
        exact (h s hs).1
    have hfirst : firstOf ((byDecreasingScore scored).map (·.toRecord)) (.int 10) =
      .ok (((byDecreasingScore scored).take 10).map (·.toRecord)) := by
      rw [map_take]
      exact firstOf_eq_take _ 10
    have hrows : (((byDecreasingScore scored).take 10).map (·.toRecord)).mapM issueRow =
        .ok (((byDecreasingScore scored).take 10).map issueRowOf) := by
      rw [Outcome.mapM_eq_ok_iff, map_map, map_map]
      refine map_congr_left fun s hs => issueRow_toRecord (h s ?_)
      exact mem_mergeSort.mp (mem_of_mem_take hs)
    have hisEmpty : scored.isEmpty = false := by simpa using hempty
    simp only [htruthy, hisEmpty, Bool.not_true, Bool.false_eq_true, if_false, Datum.items, hsorted, hfirst, hrows, bind,
      Except.bind, pure, Except.pure]
    rfl

/-! ## Texts of numbers -/

lemma isDigit_of_mem_decimal {n : ℕ} {c : Char} (hc : c ∈ Number.decimal n) : c.isDigit = true :=
  Nat.isDigit_of_mem_toDigits (by decide) (by decide) hc

/-- The number of something has only digits. -/
lemma isDigit_of_mem_number {n : ℕ} {c : Char} (hc : c ∈ (number n).toList) : c.isDigit = true := by
  rw [number, Number.decimalInt, if_neg (by omega), String.toList_ofList] at hc
  exact isDigit_of_mem_decimal hc

/-- There is no blank in a number with a given count of decimal places. -/
lemma blank_not_mem_fixed (places : ℕ) (x : Float) : ' ' ∉ (Number.fixed places x).toList := by
  have hpadded : ∀ (k n : ℕ), ' ' ∉ replicate k '0' ++ Number.decimal n := by
    intro k n hmem
    rcases mem_append.mp hmem with hmem | hmem
    · exact absurd (eq_of_mem_replicate hmem) (by decide)
    · exact absurd (isDigit_of_mem_decimal hmem) (by decide)
  have hbody : ∀ (padded : List Char) (i : ℕ), ' ' ∉ padded → ' ' ∉ padded.take i ++ '.' :: padded.drop i := by
    intro padded i hno hmem
    rcases mem_append.mp hmem with hmem | hmem
    · exact hno (mem_of_mem_take hmem)
    · rcases mem_cons.mp hmem with heq | hmem
      · exact absurd heq (by decide)
      · exact hno (mem_of_mem_drop hmem)
  unfold Number.fixed
  split
  · decide
  · split_ifs <;> decide
  · simp only [String.toList_ofList]
    split_ifs
    · rintro (_ | ⟨_, hmem⟩)
      exact hbody _ _ (hpadded _ _) hmem
    · exact hbody _ _ (hpadded _ _)

/-! ## Headings -/

/-- The headings in a section whose first line is told. -/
lemma headings_append {line : String} (hline : '\n' ∉ line.toList) (rest : String) :
    headings (line ++ "\n" ++ rest) = (if "### ".toList.isPrefixOf line.toList then [line] else []) ++ headings rest := by
  have hlist : (line ++ "\n" ++ rest).toList = line.toList ++ '\n' :: rest.toList := by simp
  unfold headings
  rw [hlist, splitOn_append_cons_self, splitOn_eq_singleton hline, filter_append, map_append,
    filter_cons, filter_nil]
  split_ifs <;> simp

/-- There is one heading in the section on the categories of bare values. -/
lemma headings_bareCategories (n : ℕ) :
    headings (bareCategories n) = if n = 0 then [] else ["### Other (" ++ number n ++ ")"] := by
  unfold bareCategories
  split_ifs with hn
  · decide +kernel
  · have hlines : ∀ k, headings (String.join (replicate k bareLine)) = [] := by
      intro k
      induction k with
      | zero => decide +kernel
      | succ k ih =>
        have hsplit : bareLine = "- [P3] Issue — :1-1 — score 0.00" ++ "\n" := by decide +kernel
        rw [replicate_succ, String.join_cons, hsplit, headings_append (by decide +kernel), ← hsplit, ih]
        decide +kernel
    have hsplit : "\n## Per-category\n" ++ ("\n### Other (" ++ number n ++ ")\n" ++
          String.join (replicate (min 5 n) bareLine)) =
        "" ++ "\n" ++ ("## Per-category" ++ "\n" ++ ("" ++ "\n" ++ ("### Other (" ++ number n ++ ")" ++ "\n" ++
          String.join (replicate (min 5 n) bareLine)))) := by
      rw [← String.toList_inj]
      simp
    have hnumber : '\n' ∉ ("### Other (" ++ number n ++ ")").toList := by
      intro hmem
      simp only [String.toList_append, mem_append] at hmem
      rcases hmem with (hmem | hmem) | hmem
      · exact absurd hmem (by decide)
      · exact absurd (isDigit_of_mem_number hmem) (by decide)
      · exact absurd hmem (by decide)
    rw [hsplit, headings_append (by decide), headings_append (by decide), headings_append (by decide),
      headings_append hnumber, hlines]
    simp

/-! ## What the report tells -/

/-- The row on a finding is not the row on a bare value: no category has the default name. -/
lemma issueRowOf_append_ne (s : ScoredFinding Float) (rest rest' : String) :
    issueRowOf s ++ rest ≠ bareRow ++ rest' := by
  intro h
  have hlist : "| ".toList ++ (s.severity.name.toList ++ ' ' :: ("| ".toList ++ ((Number.fixed 2 s.score).toList ++ ' ' ::
      ("| ".toList ++ (s.category.name.toList ++ ' ' :: ("| ".toList ++ (s.file ++ ":" ++ number s.firstLine ++ "-" ++
        number s.lastLine ++ " | " ++ s.title ++ " |\n" ++ rest).toList)))))) =
      "| ".toList ++ ("P3".toList ++ ' ' :: ("| ".toList ++ ("0.00".toList ++ ' ' :: ("| ".toList ++ ("issue".toList ++ ' ' ::
        ("| :1-1 | Issue |\n" ++ rest').toList))))) := by
    have h := congrArg String.toList h
    simpa [issueRowOf, bareRow] using h
  have hseverity : ' ' ∉ s.severity.name.toList := by cases s.severity <;> decide
  have hcategory : ' ' ∉ s.category.name.toList := by cases s.category <;> decide
  obtain ⟨-, h⟩ := append_cons_inj hseverity (by decide) (append_cancel_left hlist)
  obtain ⟨-, h⟩ := append_cons_inj (blank_not_mem_fixed 2 s.score) (by decide) (append_cancel_left h)
  obtain ⟨hname, -⟩ := append_cons_inj hcategory (by decide) (append_cancel_left h)
  revert hname
  cases s.category <;> decide

/-- The table tells the findings only if there are none. -/
lemma bareTable_eq_iff (scored : List (ScoredFinding Float)) :
    bareTable scored.length = issueTable scored ↔ scored = [] := by
  constructor
  · intro h
    by_contra hne
    have hlength : scored.length ≠ 0 := by simpa using hne
    have hisEmpty : scored.isEmpty = false := by simpa using hne
    rw [bareTable, if_neg hlength, issueTable, hisEmpty, if_neg Bool.false_ne_true, String.append_right_inj] at h
    obtain ⟨s, rest, hsorted⟩ : ∃ s rest, (byDecreasingScore scored).take 10 = s :: rest := by
      refine exists_cons_of_ne_nil fun hnil => hlength ?_
      have hmin := congrArg List.length hnil
      simp only [byDecreasingScore, length_take, length_mergeSort, length_nil] at hmin
      omega
    obtain ⟨k, hk⟩ : ∃ k, min 10 scored.length = k + 1 := ⟨min 10 scored.length - 1, by omega⟩
    rw [hsorted, hk, replicate_succ, map_cons, String.join_cons, String.join_cons] at h
    exact issueRowOf_append_ne s _ _ h.symm
  · rintro rfl
    rfl

/-- No category has the heading of bare values. -/
lemma heading_ne (c : Category) (m n : String) :
    "### " ++ Text.capitalize c.name ++ " (" ++ m ++ ")" ≠ "### Other (" ++ n ++ ")" := by
  intro h
  have h := congrArg String.toList h
  have hinitial : ∀ c : Category, (Text.capitalize c.name).toList.head? ≠ some 'O' ∧ Text.capitalize c.name ≠ "" := by
    intro c
    cases c <;> decide +kernel
  obtain ⟨hhead, hne⟩ := hinitial c
  cases hcapital : (Text.capitalize c.name).toList with
  | nil => exact hne (by simpa using hcapital)
  | cons initial rest =>
    rw [hcapital] at hhead
    simp [hcapital] at h
    simp [h.1] at hhead

/-- The section on the categories tells them only if there are no findings. -/
lemma headings_perm_iff (scored : List (ScoredFinding Float)) :
    (headings (bareCategories scored.length)).Perm (categoryHeadings scored) ↔ scored = [] := by
  rw [headings_bareCategories]
  constructor
  · intro h
    by_contra hne
    have hlength : scored.length ≠ 0 := by simpa using hne
    rw [if_neg hlength] at h
    have hmem : "### Other (" ++ number scored.length ++ ")" ∈ categoryHeadings scored := h.mem_iff.mp (by simp)
    obtain ⟨c, -, hc⟩ := mem_map.mp hmem
    exact heading_ne c _ _ hc
  · rintro rfl
    exact Perm.of_eq (by decide +kernel)

/-- **The report tells the findings of an analysis only if there are none.** What it tells of the greatest scores and of
the categories is what it tells of so many values without attributes: up to ten rows of defaults, and one heading
for all findings. If there are findings, this is neither the table of the findings nor are these the headings of their
categories. The table would be right if the findings were handed over as records. -/
theorem report_tells_findings_iff (a : Analysis) :
    (∀ path, Report.findings path a = (do
        Report.extend path (.ok (bareTable a.scored.length))
        Report.extend path (.ok (bareCategories a.scored.length))
        Report.extend path (issueDetails a.scoredDatum)
        Report.extend path (rawFindings a.rawDatum))) ∧
      headings (bareCategories a.scored.length) =
        (if a.scored.isEmpty then [] else ["### Other (" ++ number a.scored.length ++ ")"]) ∧
      (bareTable a.scored.length = issueTable a.scored ↔ a.scored = []) ∧
      ((headings (bareCategories a.scored.length)).Perm (categoryHeadings a.scored) ↔ a.scored = []) ∧
      ((∀ s ∈ a.scored, Located s) → topIssues (.list (a.scored.map (·.toRecord))) = .ok (issueTable a.scored)) := by
  have hbare : ∀ d ∈ a.scored.map (·.toDatum), d.Bare := by
    intro d hd
    obtain ⟨s, -, rfl⟩ := List.mem_map.mp hd
    exact s.bare_toDatum
  have htop : topIssues a.scoredDatum = .ok (bareTable a.scored.length) := by
    simpa [Analysis.scoredDatum] using topIssues_of_bare hbare
  have hcategories : perCategory a.scoredDatum = .ok (bareCategories a.scored.length) := by
    simpa [Analysis.scoredDatum] using perCategory_of_bare hbare
  refine ⟨fun path => ?_, ?_, bareTable_eq_iff a.scored, headings_perm_iff a.scored, topIssues_records⟩
  · rw [Report.findings, htop, hcategories]
  · rw [headings_bareCategories]
    simp

end Markdown

end CodeAudit
