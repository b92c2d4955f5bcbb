import CodeAudit.Proofs.Analysis.Run
import CodeAudit.Proofs.Detect.Duplication
import CodeAudit.Proofs.Files.Change
import CodeAudit.Proofs.Report.Schema
import CodeAudit.Proofs.Session

/-!
# The findings from the detectors to the exported report

The findings of an analysis are told four times: raw, scored, as values, and in the exported report. Between these
forms none is lost, told twice or moved, and the export never rejects what an analysis gave.

## Main definitions

* `Category.summaryKey` — where a summary counts the findings of a category.
* `Report.textOf` — the text of a report with given findings.

## Main results

* `Analysis.exportable_of_run` — all findings of an analysis can be exported.
* `Analysis.export_accepts_every_run` — the export rejects no analysis.
* `Analysis.findings_kept_in_order` — no finding is lost, told twice or moved.
-/

namespace CodeAudit

open Outcome List ScoredFinding

/-! ## What the detectors find -/

namespace Findings

variable {findings : Findings} {c : Category} {f threshold : Datum}

/-- Texts name what the detectors find. -/
lemma exists_id (h : f ∈ findings.raw.of c) : ∃ id, f.field? "id" = some (.text id) := by
  cases c with
  | security | complexity | duplication | performance | documentation | testing =>
    obtain ⟨x, -, rfl⟩ := mem_map.mp h
    exact ⟨x.id, rfl⟩

/-- What only findings of a category tell are texts and numbers. -/
lemma unwritable?_extra (h : f ∈ findings.raw.of c) {j : Judgement Float}
    {place : Except Fault ScoredFinding.Where} (hjudge : ScoredFinding.judge threshold c f = .ok (j, place)) :
    ∀ e ∈ j.extra, Json.unwritable? e.2 = none := by
  cases c with
  | complexity =>
    obtain ⟨j', hj, hjudge⟩ := bind_eq_ok.mp hjudge
    obtain ⟨rfl, rfl⟩ := Prod.mk.inj (Except.ok.inj hjudge)
    obtain ⟨value, -, hj⟩ := bind_eq_ok.mp hj
    simp only [bind_eq_ok] at hj
    obtain ⟨bound, -, score, -, n, -, m, -, title, -, hj⟩ := hj
    obtain rfl := Except.ok.inj hj
    simp [Json.unwritable?]
  | duplication =>
    obtain ⟨x, -, rfl⟩ := mem_map.mp h
    obtain ⟨⟨j', place'⟩, hj, hjudge⟩ := bind_eq_ok.mp hjudge
    obtain ⟨rfl, rfl⟩ := Prod.mk.inj (Except.ok.inj hjudge)
    obtain ⟨similarity, -, hj⟩ := bind_eq_ok.mp hj
    obtain ⟨score, -, hj⟩ := bind_eq_ok.mp hj
    obtain ⟨files, hfiles, hj⟩ := bind_eq_ok.mp hj
    obtain ⟨title, -, hj⟩ := bind_eq_ok.mp hj
    obtain ⟨rfl, rfl⟩ := Prod.mk.inj (Except.ok.inj hj)
    obtain rfl : (Datum.text x.files.1, x.files.2) = files := Except.ok.inj hfiles
    simp [Json.unwritable?]
  | security =>
    obtain ⟨j', hj, hjudge⟩ := bind_eq_ok.mp hjudge
    obtain ⟨rfl, rfl⟩ := Prod.mk.inj (Except.ok.inj hjudge)
    rw [(of_judgeByWeight (0 : Float) hj).2.1]
    simp
  | performance | documentation | testing =>
    obtain ⟨x, -, rfl⟩ := mem_map.mp h
    obtain ⟨j', hj, hjudge⟩ := bind_eq_ok.mp hjudge
    obtain ⟨rfl, rfl⟩ := Prod.mk.inj (Except.ok.inj hjudge)
    rw [(of_judgeByWeight (0 : Float) hj).2.1]
    rintro e (_ | ⟨_, ⟨⟩⟩)
    rfl

end Findings

/-! ## What is told of findings -/

/-- Where a summary counts the findings of a category. -/
def Category.summaryKey : Category → String
  | .security => "security_findings"
  | .complexity => "complexity_findings"
  | .duplication => "duplication_findings"
  | .performance => "performance_findings"
  | .documentation => "documentation_findings"
  | .testing => "test_gap_findings"

namespace ScoredFinding

/-- What is told of a finding wherever it is told. -/
def sharedKeys : List String :=
  ["id", "category", "severity", "score", "title", "file", "start_line", "end_line", "extra"]

/-- A scored finding tells as a value what it tells in the export. -/
lemma exists_shared (s : ScoredFinding Float) {key : String} (h : key ∈ sharedKeys) :
    ∃ v, s.toDatum.entry? key = some v ∧ s.toExport.entry? key = some v := by
  rw [toDatum, toExport, Datum.entry?_object, Datum.entry?_object]
  simp only [sharedKeys, mem_cons, not_mem_nil, or_false] at h
  rcases h with rfl | rfl | rfl | rfl | rfl | rfl | rfl | rfl | rfl
  all_goals exact ⟨_, rfl, rfl⟩

end ScoredFinding

/-! ## The file of a report -/

namespace Report

/-- **When an export succeeds, and what it writes.** -/
lemma runOn_exportJson_eq_ok {dir path : Path} {files languages findings metrics : Datum} {before after : Files} :
    (exportJson dir files languages findings metrics).runOn before = (.ok path, after) ↔
      ∃ report, ExportedReport.check files languages findings metrics = .ok report ∧
        Json.writable report.toDatum = .ok (Json.pretty report.toDatum) ∧ path = dir.child "report.json" ∧
        before.write path (Json.pretty report.toDatum) = .ok after := by
  have htext : ∀ {d text}, Json.writable d = .ok text → text = Json.pretty d := by
    intro d text h
    unfold Json.writable at h
    split at h
    · cases h
    · exact (Except.ok.inj h).symm
  unfold exportJson
  simp only [FileTask.runOn_bind_eq_ok, FileTask.runOn_ofResult, FileTask.runOn_changing_eq_ok, FileTask.runOn_pure,
    Prod.mk.injEq, Except.ok.injEq]
  constructor
  · rintro ⟨report, between, ⟨hreport, rfl⟩, text, between, ⟨hwritable, rfl⟩, u, between, hwrite, rfl, rfl⟩
    obtain rfl := htext hwritable
    exact ⟨report, hreport, hwritable, rfl, hwrite⟩
  · rintro ⟨report, hreport, hwritable, rfl, hwrite⟩
    exact ⟨report, before, ⟨hreport, rfl⟩, _, before, ⟨hwritable, rfl⟩, (), after, hwrite, rfl, rfl⟩

/-- The text of a report with given findings. -/
def textOf (summary : Datum) (findings : List Datum) (dependencies : Datum) : String :=
  Json.pretty (.object [("summary", summary), ("findings", .list findings), ("dependencies", dependencies)])

/-- The text of a report that passed tells the findings that were given. -/
lemma pretty_toDatum {scored : List (ScoredFinding Float)} (h : ∀ s ∈ scored, s.Exportable)
    {files languages metrics : Datum} {report : ExportedReport}
    (hcheck : ExportedReport.check files languages (.list (scored.map (·.toExport))) metrics = .ok report) :
    Json.pretty report.toDatum = textOf (.object [("files_scanned", .int report.filesScanned),
      ("by_language", countsDatum report.byLanguage)]) (scored.map (·.toExport)) report.metrics.toDatum := by
  rw [ExportedReport.toDatum, ExportedReport.findings_of_check h hcheck]
  rfl

end Report

namespace Analysis

open DependencyMetrics (normalDatum)

variable {fs : Files} {root : Path} {request : Request} {a : Analysis}

/-! ## The findings of an analysis -/

/-- The similarities that the detectors find are numbers. -/
lemma comparable_of_detect {rules : Datum} {modules : List ModuleUnit} {findings : Findings}
    (h : detect fs root rules modules = .ok findings) {c : Category} {f : Datum} (hf : f ∈ findings.raw.of c) :
    Comparable c f := by
  rintro rfl x hx
  obtain ⟨warnAt, -, h⟩ := bind_eq_ok.mp h
  obtain ⟨rowLength, -, h⟩ := bind_eq_ok.mp h
  obtain ⟨least, -, h⟩ := bind_eq_ok.mp h
  obtain rfl := Except.ok.inj h
  obtain ⟨duplicate, hduplicate, rfl⟩ := mem_map.mp hf
  obtain rfl : duplicate.similarity = x := Except.ok.inj hx
  cases hdetect : Duplication.detect { rowLength, threshold := least } (modules.flatMap (·.functions)) with
  | error e => simp [hdetect, orNothing] at hduplicate
  | ok found =>
    rw [hdetect] at hduplicate
    exact Duplication.isNaN_similarity hdetect hduplicate

/-- **All findings of an analysis can be exported.** -/
lemma exportable_of_run (h : run fs root request = .ok a) : ∀ s ∈ a.scored, s.Exportable := by
  intro s hs
  obtain ⟨top, infos, hstages⟩ := stages_of_run h
  obtain ⟨c, f, hf, hscored⟩ := exists_raw_of_mem hstages.scored hs
  obtain ⟨j, place, hstems⟩ := exists_stems hscored
  obtain ⟨id, hid⟩ := Findings.exists_id hf
  refine ⟨sound_of_ofRaw (comparable_of_detect hstages.detected hf) hscored, ⟨id, ?_⟩, ?_⟩
  · have hrequired := hstems.id
    rw [required, hid] at hrequired
    exact (Except.ok.inj hrequired).symm
  · rw [hstems.extra]
    exact Findings.unwritable?_extra hf hstems.judged

/-- **The rows of the scored findings**: category by category, one for each raw finding, in the order of these. -/
lemma map_id_category (hrun : run fs root request = .ok a) :
    a.scored.map (fun s => (some s.id, s.category)) =
      Category.all.flatMap fun c => (a.findings.raw.of c).map fun f => (f.field? "id", c) := by
  obtain ⟨top, infos, hstages⟩ := stages_of_run hrun
  obtain ⟨group, hgroup, hscored⟩ := exists_groups hstages.scored
  rw [hscored, map_flatMap]
  refine flatMap_congr fun c _ => map_eq_of_mapM (hgroup c) fun f _ s hs => ?_
  obtain ⟨j, place, hstems⟩ := exists_stems hs
  have hid := hstems.id
  unfold required at hid
  cases hfield : f.field? "id" with
  | none => simp [hfield] at hid
  | some id =>
    rw [hfield] at hid
    rw [← Except.ok.inj hid, hstems.category_eq]

/-- There are as many scored findings of a category as raw ones. -/
lemma countP_category (hrun : run fs root request = .ok a) (c : Category) :
    a.scored.countP (·.category = c) = (a.findings.raw.of c).length := by
  obtain ⟨top, infos, hstages⟩ := stages_of_run hrun
  obtain ⟨group, hgroup, hscored⟩ := exists_groups hstages.scored
  rw [countP_eq_length_filter, hscored, filter_flatMap_group hgroup c]
  have hlength := congrArg List.length (mapM_eq_ok_iff.mp (hgroup c))
  simpa using hlength.symm

/-! ## The export -/

/-- The normal form of the metrics of an analysis, with which the export succeeds if the file can be written. -/
lemma exists_export_of_run (hrun : run fs root request = .ok a) (files : ℕ) :
    ∃ fanIn fanOut topFanIn topFanOut report,
      Audit.normalMetrics a = .ok (normalDatum fanIn fanOut a.metrics.cycles topFanIn topFanOut) ∧
      ExportedReport.check (.int files) a.byLanguage a.exported
        (normalDatum fanIn fanOut a.metrics.cycles topFanIn topFanOut) = .ok report ∧
      Json.writable report.toDatum = .ok (Json.pretty report.toDatum) ∧
      ∀ dir before after, before.write (Path.child dir "report.json") (Json.pretty report.toDatum) = .ok after →
        (Report.exportJson dir (.int files) a.byLanguage a.exported
          (normalDatum fanIn fanOut a.metrics.cycles topFanIn topFanOut)).runOn before =
            (.ok (dir.child "report.json"), after) := by
  have hlanguages : a.byLanguage = .dict (Datum.countEntries ([Language.python, .javascript, .typescript].map
      fun lang => (lang.tag, (a.modules.countP (·.lang == lang) : ℕ)))) := rfl
  obtain ⟨fanIn, fanOut, topFanIn, topFanOut, hmetrics⟩ := DependencyMetrics.exists_normalize a.metrics
  obtain ⟨report, hreport, hwritable⟩ := ExportedReport.exists_check (exportable_of_run hrun) files _
    fanIn fanOut a.metrics.cycles topFanIn topFanOut
  rw [← hlanguages] at hreport
  refine ⟨fanIn, fanOut, topFanIn, topFanOut, report, hmetrics, hreport, hwritable, fun dir before after hwrite => ?_⟩
  exact Report.runOn_exportJson_eq_ok.mpr ⟨report, hreport, hwritable, rfl, hwrite⟩

/-- **The export rejects no analysis.** Let an analysis have given a result. The normal form of its dependency metrics
has the declared shape, and with it the findings pass all checks of the report, which can be written as JSON; so the
export succeeds whenever the file can be written. Every finding is sound: its score lies in the unit interval, its
lines are counted from one, and its severity is the one that belongs to its score. The same holds of the findings
scored over exact numbers; there every complexity has a score in the unit interval, whatever the threshold is, if it
is not zero. -/
theorem export_accepts_every_run (hrun : run fs root request = .ok a) (files : ℕ) :
    (∃ fanIn fanOut topFanIn topFanOut report,
      Audit.normalMetrics a = .ok (normalDatum fanIn fanOut a.metrics.cycles topFanIn topFanOut) ∧
      ExportedReport.check (.int files) a.byLanguage a.exported
        (normalDatum fanIn fanOut a.metrics.cycles topFanIn topFanOut) = .ok report ∧
      Json.writable report.toDatum = .ok (Json.pretty report.toDatum) ∧
      ∀ dir before after, before.write (Path.child dir "report.json") (Json.pretty report.toDatum) = .ok after →
        (Report.exportJson dir (.int files) a.byLanguage a.exported
          (normalDatum fanIn fanOut a.metrics.cycles topFanIn topFanOut)).runOn before =
            (.ok (dir.child "report.json"), after)) ∧
    (∀ s ∈ a.scored, s.Sound ∧ s.severity.name ∈ ["P0", "P1", "P2", "P3"]) ∧
    (∃ rescored : List (ScoredFinding ℚ),
      ScoredFinding.ofAllRaw (a.thresholds.warnAt.orElse (.int 10)) a.findings.raw = .ok rescored ∧
      ∀ s ∈ rescored, s.Sound ∧ s.severity.name ∈ ["P0", "P1", "P2", "P3"]) ∧
    ∀ value threshold : ℚ, threshold ≠ 0 → ∃ score,
      Score.complexity value (Weights.standardOf .complexity) threshold = .ok score ∧ 0 ≤ score ∧ score ≤ 1 := by
  obtain ⟨top, infos, hstages⟩ := stages_of_run hrun
  have hexportable := exportable_of_run hrun
  have hname : ∀ severity : Severity, severity.name ∈ ["P0", "P1", "P2", "P3"] := by
    intro severity
    cases severity <;> decide
  refine ⟨exists_export_of_run hrun files, fun s hs => ⟨(hexportable s hs).sound, hname _⟩, ?_, ?_⟩
  · obtain ⟨rescored, hrescored, hsound⟩ := ScoredFinding.exists_sound_exact hstages.scored
    exact ⟨rescored, hrescored, fun s hs => ⟨hsound s hs, hname _⟩⟩
  · intro value threshold hthreshold
    exact ⟨_, Score.complexity_exact value _ hthreshold, Quantity.unit_exact _⟩

/-- The finding on a call of `eval` is exported. -/
theorem export_accepts_eval : ∃ a, run (pair (Text.encode "eval(x)\n") []) ⟨"", []⟩ allScripts = .ok a ∧
    (∃ s ∈ a.scored, s.category = .security ∧ 0 ≤ s.score ∧ s.score ≤ 1 ∧ 1 ≤ s.firstLine) ∧
    ∃ metrics report, Audit.normalMetrics a = .ok metrics ∧
      ExportedReport.check (.int 2) a.byLanguage a.exported metrics = .ok report := by
  obtain ⟨a, hrun, -, s, hs, hcategory⟩ := exists_run_eval
  obtain ⟨⟨_, _, _, _, report, hmetrics, hreport, -⟩, hsound, -⟩ := export_accepts_every_run hrun 2
  obtain ⟨⟨hscore, hfirst, -⟩, -⟩ := hsound s hs
  exact ⟨a, hrun, ⟨s, hs, hcategory, hscore.1, hscore.2, hfirst⟩, _, report, hmetrics, hreport⟩

/-! ## No finding is lost -/

/-- A finding of a category is told to be of that category. -/
lemma countP_toExport (hrun : run fs root request = .ok a) (c : Category) :
    (a.scored.map (·.toExport)).countP (fun e => e.entry? "category" == some (.text c.name)) =
      (a.findings.raw.of c).length := by
  rw [countP_map, ← countP_category hrun c]
  refine countP_congr fun s _ => ?_
  have hentry : s.toExport.entry? "category" = some (.text s.category.name) := by
    rw [toExport, Datum.entry?_object]
    rfl
  have hname : s.category.name = c.name ↔ s.category = c := by
    cases s.category <;> cases c <;> decide
  rw [Function.comp_apply, hentry, decide_eq_true_eq, ← hname]
  change Datum.equals _ _ = true ↔ _
  rw [Datum.equals_text_iff, Datum.text.injEq]

/-- **No finding is lost, told twice or moved.** Let an analysis have given a result. Its scored findings and those
for the export are equally many, and agree one by one on all that both tell. There is one for each raw finding, with
the identifier of that finding: first those on security, then those on complex, duplicated and slow functions, then
those on documentation and tests, each in the order of the raw findings. Every count in the summary is the number of
findings of its category. An export that succeeds writes just these findings in this order; with the metrics in normal
form it succeeds whenever the file can be written. -/
theorem findings_kept_in_order (hrun : run fs root request = .ok a) :
    ∃ scored exported, a.scoredDatum = .list scored ∧ a.exported = .list exported ∧
      scored.length = exported.length ∧
      List.Forall₂ (fun s e => ∀ key ∈ ScoredFinding.sharedKeys, ∃ v, Datum.entry? s key = some v ∧
        Datum.entry? e key = some v) scored exported ∧
      (scored.map fun s => ( s.entry? "id", s.entry? "category")) =
        ([.security, .complexity, .duplication, .performance, .documentation, .testing].flatMap fun c =>
          (a.findings.raw.of c).map fun f => (f.field? "id", some (.text c.name))) ∧
      (∀ c : Category, a.summary.entry? c.summaryKey =
        some (.int (exported.countP fun e => e.entry? "category" == some (.text c.name)))) ∧
      (∀ dir files languages metrics before path after,
        (Report.exportJson dir files languages a.exported metrics).runOn before = (.ok path, after) →
        ∃ summary dependencies, path = dir.child "report.json" ∧
          after.readBytes path = .ok (Text.encode (Report.textOf summary exported dependencies))) ∧
      ∀ files : ℕ, ∃ metrics summary dependencies, Audit.normalMetrics a = .ok metrics ∧ ∀ dir before after,
        before.write (Path.child dir "report.json") (Report.textOf summary exported dependencies) = .ok after →
        (Report.exportJson dir (.int files) a.byLanguage a.exported metrics).runOn before =
          (.ok (dir.child "report.json"), after) := by
  refine ⟨_, _, rfl, rfl, by simp, ?_, ?_, ?_, ?_, ?_⟩
  · rw [List.forall₂_map_left_iff, List.forall₂_map_right_iff, List.forall₂_same]
    exact fun s _ key hkey => s.exists_shared hkey
  · have hrow : ∀ s : ScoredFinding Float, ( s.toDatum.entry? "id", s.toDatum.entry? "category") =
        (some s.id, some (.text s.category.name)) := by
      intro s
      rw [ScoredFinding.toDatum, Datum.entry?_object, Datum.entry?_object]
      rfl
    have hrows := congrArg (List.map fun row => (row.1, some (Datum.text row.2.name))) (map_id_category hrun)
    rw [List.map_map, List.map_flatMap] at hrows
    rw [List.map_map]
    refine (List.map_congr_left fun s _ => hrow s).trans (hrows.trans ?_)
    exact List.flatMap_congr fun c _ => List.map_map
  · intro c
    rw [countP_toExport hrun c, summary, Datum.entry?_object]
    cases c with
    | security | complexity | duplication | performance | documentation | testing =>
      simp only [RawFindings.of, Findings.raw, List.length_map]
      rfl
  · intro dir files languages metrics before path after h
    obtain ⟨report, hreport, -, hpath, hwrite⟩ := Report.runOn_exportJson_eq_ok.mp h
    rw [Report.pretty_toDatum (exportable_of_run hrun) hreport] at hwrite
    exact ⟨_, _, hpath, Files.readBytes_of_write hwrite⟩
  · intro files
    obtain ⟨_, _, _, _, report, hmetrics, hreport, -, hexport⟩ := exists_export_of_run hrun files
    rw [Report.pretty_toDatum (exportable_of_run hrun) hreport] at hexport
    exact ⟨_, _, _, hmetrics, hexport⟩

/-- The finding on a call of `eval` is scored, counted and exported. -/
theorem findings_kept_eval : ∃ a scored exported,
    run (pair (Text.encode "eval(x)\n") []) ⟨"", []⟩ allScripts = .ok a ∧
    a.scoredDatum = .list scored ∧ a.exported = .list exported ∧ scored ≠ [] ∧ scored.length = exported.length ∧
    a.summary.entry? "security_findings" =
      some (.int (exported.countP fun e => e.entry? "category" == some (.text "security"))) := by
  obtain ⟨a, hrun, -, s, hs, -⟩ := exists_run_eval
  obtain ⟨scored, exported, hscored, hexported, hlength, -, -, hcounts, -⟩ := findings_kept_in_order hrun
  refine ⟨a, scored, exported, hrun, hscored, hexported, ?_, hlength, hcounts .security⟩
  rw [← Datum.list.inj hscored]
  exact List.ne_nil_of_mem (List.mem_map_of_mem hs)

end Analysis

end CodeAudit
