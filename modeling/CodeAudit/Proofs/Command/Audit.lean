import CodeAudit.Command.Audit
import CodeAudit.Proofs.Audit

/-!
# The files that the audit of a repository sees

The command that audits a repository lists its files, starts a report, runs the detectors, and goes on to the
dependencies. This module cuts the command after its detectors and compares what was listed with what was analysed.

## Main definitions

* `Command.Survey` — what the command has found out when its detectors are finished.
* `Command.survey`, `Command.conclude` — the command up to there, and from there on.

## Main results

* `Command.analyze_eq` — the command is made of two parts.
* `Command.of_survey` — what is known of a survey.
-/

namespace CodeAudit.Command

open CodeAudit.Action Audit

/-! ## The command in two parts -/

/-- **What the command has found out when its detectors are finished.** -/
structure Survey where
  root : Path
  rules : Datum
  out : Path
  infos : List FileInfo
  report : Path
  analysis : Analysis

/-- The command up to the end of its detectors; there is no survey if no findings are asked for. -/
def survey (args : Arguments) : Action (Option Survey) := do
  let root ← existingPath args "path"
  let rules ← rules (← pathOf args "rules_file")
  let _ ← ofResult (weights rules)
  let out ← pathOf args "output_dir"
  rule "[bold]Scanning repository"
  let scope := scopeOf args root (args.value "max_bytes")
  let infos ← filesWithin scope
  showFiles infos
  let report ← files (Audit.start out infos)
  say ("Wrote summary: " ++ report.toString)
  if (args.value "no_findings").truthy then
    return none
  else
    rule "[bold]Running detectors"
    let analysis ← orExit "Detector pipeline failed: " (detect rules scope report)
    return some { root, rules, out, infos, report, analysis }

/-- The command behind its detectors. -/
def conclude : Option Survey → Action Unit
  | none => pure ()
  | some v => do
    rule "[bold]Analyzing dependencies"
    orExit "Dependency/report export failed: " (relate v.report v.out v.infos.length v.analysis)

/-- **The command is made of these two parts.** -/
lemma analyze_eq (args : Arguments) : analyze args = survey args >>= conclude := by
  unfold analyze survey
  simp only [bind_assoc]
  by_cases hnone : (args.value "no_findings").truthy = true
  · simp [hnone, conclude]
  · simp [hnone, conclude]

/-! ## What the steps of a survey tell -/

section Steps

variable {α : Type} {args : Arguments} {around : Surroundings} {s after : Session}

variable {name text : String} {p report : Path} {scope : Audit.Scope} {infos : List FileInfo} {rules : Datum}
  {analysis : Analysis}

lemma of_pathOf (h : (pathOf args name).runOn around s = (.ok p, after)) :
    after = s ∧ ∃ text, args.value name = .text text ∧ p = .ofString text := by
  unfold pathOf at h
  split at h
  · rename_i text hvalue
    obtain ⟨hp, rfl⟩ := Prod.mk.inj h
    exact ⟨rfl, text, hvalue, (Except.ok.inj hp).symm⟩
  · cases h

lemma of_existingPath (h : (existingPath args name).runOn around s = (.ok p, after)) : after = s := by
  obtain ⟨p', between, hp', h⟩ := runOn_bind_eq_ok.mp h
  obtain ⟨there, _, hthere, h⟩ := runOn_bind_eq_ok.mp h
  obtain ⟨rfl, -⟩ := of_pathOf hp'
  obtain ⟨-, rfl⟩ := runOn_reading_eq_ok.mp hthere
  cases there with
  | true => exact (Prod.mk.inj h).2.symm
  | false => cases h

/-- Without files there is no survey. -/
lemma of_filesWithin (h : (filesWithin scope).runOn around s = (.ok infos, after)) :
    Audit.files s.files scope = .ok infos ∧ infos ≠ [] ∧ after = s := by
  obtain ⟨infos', _, hfiles, h⟩ := runOn_bind_eq_ok.mp h
  obtain ⟨hfiles, rfl⟩ := runOn_reading_eq_ok.mp hfiles
  cases infos' with
  | nil => cases h
  | cons info infos' =>
    obtain ⟨hinfos, rfl⟩ := Prod.mk.inj h
    obtain rfl := Except.ok.inj hinfos
    exact ⟨hfiles, by simp, rfl⟩

lemma files_of_showFiles {u : Unit} (h : (showFiles infos).runOn around s = (.ok u, after)) :
    after.files = s.files := by
  obtain ⟨_, _, hdisplay, h⟩ := runOn_bind_eq_ok.mp h
  obtain ⟨-, rfl⟩ := Prod.mk.inj hdisplay
  split_ifs at h
  · exact (Prod.mk.inj h).2 ▸ rfl
  · exact (Prod.mk.inj h).2 ▸ rfl

/-- A step that ends the program if it fails succeeds exactly as the step does. -/
lemma runOn_orExit_eq_ok {heading : String} {a : Action α} {x : α} :
    (orExit heading a).runOn around s = (.ok x, after) ↔ a.runOn around s = (.ok x, after) := by
  rw [orExit]
  rcases hrun : a.runOn around s with ⟨outcome, left⟩
  have hattempt : (attempt a).runOn around s = (attempted outcome, left) := by
    rw [runOn_attempt, hrun]
  cases outcome with
  | ok y =>
    rw [runOn_bind_ok hattempt]
    rfl
  | error stop =>
    cases stop with
    | fault f =>
      rw [runOn_bind_ok hattempt, runOn_bind_ok (runOn_say _ _ _)]
      simp
    | exit code => simp [runOn_bind_error hattempt]
    | halt => simp [runOn_bind_error hattempt]

lemma of_detect (h : (detect rules scope report).runOn around s = (.ok analysis, after)) :
    ∃ fs, (analyse rules scope).runOn s.files = (.ok analysis, fs) := by
  obtain ⟨analysis', _, hanalyse, h⟩ := runOn_bind_eq_ok.mp h
  obtain ⟨_, _, hfindings, h⟩ := runOn_bind_eq_ok.mp h
  obtain ⟨hanalysis, -⟩ := Prod.mk.inj h
  obtain rfl := Except.ok.inj hanalysis
  obtain ⟨fs, hanalyse, -⟩ := runOn_files_eq_ok.mp hanalyse
  exact ⟨fs, hanalyse⟩

/-- **What is known of a survey**: what was listed, where the report was started, and what was analysed then. -/
structure Survey.Of (args : Arguments) (fs : Files) (v : Survey) : Prop where
  out : ∃ text, v.out = .ofString text
  listed : Audit.files fs (scopeOf args v.root (args.value "max_bytes")) = .ok v.infos
  nonempty : v.infos ≠ []
  analysed : ∃ started left, (Audit.start v.out v.infos).runOn fs = (.ok v.report, started) ∧
    (analyse v.rules (scopeOf args v.root (args.value "max_bytes"))).runOn started = (.ok v.analysis, left)

/-- Every survey is one of the files with which the command starts. -/
lemma of_survey {v : Survey} (h : (survey args).runOn around s = (.ok (some v), after)) : v.Of args s.files := by
  obtain ⟨root, first, hroot, h⟩ := runOn_bind_eq_ok.mp h
  rw [of_existingPath hroot] at h
  obtain ⟨rulesPath, second, hpath, h⟩ := runOn_bind_eq_ok.mp h
  rw [(of_pathOf hpath).1] at h
  obtain ⟨rules, third, hrules, h⟩ := runOn_bind_eq_ok.mp h
  rw [(runOn_rules_eq_ok.mp hrules).2] at h
  obtain ⟨weights, fourth, hweights, h⟩ := runOn_bind_eq_ok.mp h
  rw [(runOn_ofResult_eq_ok.mp hweights).2] at h
  obtain ⟨out, fifth, hout, h⟩ := runOn_bind_eq_ok.mp h
  rw [(of_pathOf hout).1, rule, runOn_bind_ok (runOn_display _ _ _)] at h
  obtain ⟨infos, sixth, hinfos, h⟩ := runOn_bind_eq_ok.mp h
  obtain ⟨hlisted, hne, hsame⟩ := of_filesWithin hinfos
  obtain ⟨_, shown, hshown, h⟩ := runOn_bind_eq_ok.mp h
  have hfiles : shown.files = s.files := by rw [files_of_showFiles hshown, hsame]
  obtain ⟨report, between, hreport, h⟩ := runOn_bind_eq_ok.mp h
  obtain ⟨started, hstart, rfl⟩ := runOn_files_eq_ok.mp hreport
  rw [hfiles] at hstart
  rw [runOn_bind_ok (runOn_say _ _ _)] at h
  split_ifs at h with hnone
  · cases h
  · rw [rule, runOn_bind_ok (runOn_display _ _ _)] at h
    obtain ⟨analysis, _, hdetect, h⟩ := runOn_bind_eq_ok.mp h
    obtain ⟨left, hanalyse⟩ := of_detect (runOn_orExit_eq_ok.mp hdetect)
    obtain ⟨hv, -⟩ := Prod.mk.inj h
    obtain rfl := Option.some.inj (Except.ok.inj hv)
    exact ⟨(of_pathOf hout).2.imp fun _ h => h.2, hlisted, hne, started, left, hstart, hanalyse⟩

end Steps

/-! ## The files that a survey sees -/

/-- **When the command lists and analyses the same files.** Take a tree without links and a whole limit of size, and let
the command come to the end of its detectors. Then it goes on with the dependencies, and the files that it listed are
those that it analysed, counted alike, unless one of two things happens: the limit is zero and a file that is let through
is not empty but within the usual limit, or the report lies in the repository and only one of the two scans lists
it. -/
theorem analyze_same_files_iff {args : Arguments} {around : Surroundings} {s after : Session} {v : Survey} {limit : ℤ}
    (hfs : s.files.WellFormed) (hlinks : s.files.LinkFree) (hlimit : args.value "max_bytes" = .int limit)
    (h : (survey args).runOn around s = (.ok (some v), after)) :
    (analyze args).runOn around s = (conclude (some v)).runOn around after ∧
      ∃ started top base, (Audit.start v.out v.infos).runOn s.files = (.ok v.report, started) ∧
        s.files.resolve v.root = .ok top ∧ started.follow v.out = .ok base ∧
        (Audit.SameFiles v.infos v.analysis ↔
          ¬ Scan.Widens s.files top ((scopeOf args v.root (.int limit)).options limit) (base ++ ["report.md"]) ∧
          ¬ Scan.Shifts s.files started top ((scopeOf args v.root (.int limit)).options limit)
            (base ++ ["report.md"])) := by
  have hv := of_survey h
  obtain ⟨text, htext⟩ := hv.out
  obtain ⟨started, left, hstart, hanalyse⟩ := hv.analysed
  have hlisted := hv.listed
  rw [hlimit] at hlisted hanalyse
  have hnames : ∀ name ∈ v.out.names, name ≠ "" ∧ name ≠ "." ∧ '/' ∉ name.toList := by
    rw [htext]
    exact fun name hname => Path.of_mem_names_ofString hname
  obtain ⟨top, base, htop, hbase, hiff⟩ :=
    Audit.same_files_iff hfs hlinks hnames rfl hlisted hv.nonempty hstart hanalyse
  refine ⟨?_, started, top, base, hstart, htop, hbase, hiff⟩
  rw [analyze_eq, Action.runOn_bind_ok h]

/-- A repository with an empty file and one that is not empty. -/
def emptyAndFull : Files :=
  ⟨[(["r"], .folder), (["r", "a.js"], .file [] 0), (["r", "b.js"], .file [49] 0)], []⟩

/-- The repository is audited with a limit of zero, and the report is written beside it. -/
def zeroLimit : Arguments :=
  [("path", .text "r"), ("include", .list [.text "*.js"]), ("exclude", .list []), ("max_bytes", .int 0),
    ("output_dir", .text "."), ("rules_file", .text "rules.yaml"), ("no_findings", .bool false)]

/-- What the repository is scanned for. -/
def zeroScope : Audit.Scope :=
  scopeOf zeroLimit (.ofString "r") (.int 0)

lemma wellFormed_emptyAndFull : emptyAndFull.WellFormed where
  toRooted := Files.Rooted.of_entries (by decide) (by decide)
  distinct := by decide
  ne_nil := by decide
  named := by decide

lemma linkFree_emptyAndFull : emptyAndFull.LinkFree := by
  intro place target hlink
  have hne : place ≠ [] := by
    rintro rfl
    simp at hlink
  have hmem := Files.mem_of_entry?_eq_some hne hlink
  simp [emptyAndFull] at hmem

/-- Both files are let through by their paths. -/
lemma admitted_emptyAndFull {name : String} (h : name = "a.js" ∨ name = "b.js") :
    Scan.Admitted emptyAndFull ["r"] (zeroScope.options 0) [name] := by
  have hlines : Scan.ignoreLines emptyAndFull (Files.pathOf ["r"]) = [] := by cbv
  have hrules : Scan.rules emptyAndFull (Files.pathOf ["r"]) (zeroScope.options 0) = [] := by
    rw [Scan.rules, hlines]
    rfl
  rw [Scan.admitted_singleton_iff, hrules]
  rcases h with rfl | rfl <;> decide +kernel

lemma resolve_emptyAndFull : emptyAndFull.resolve (.ofString "r") = .ok ["r"] := by cbv

/-- The command comes to the end of its detectors. -/
lemma exists_survey_zeroLimit : ∃ v after,
    (survey zeroLimit).runOn {} { files := emptyAndFull } = (.ok (some v), after) ∧ v.root = .ofString "r" := by
  have hfound : (((survey zeroLimit).runOn {} { files := emptyAndFull }).1.toOption.map fun found =>
      found.map (·.root)) = some (some (.ofString "r")) := by
    decide +kernel
  obtain ⟨found, hrun, hroot⟩ := Outcome.exists_ok_of_map hfound
  obtain ⟨v, rfl, hv⟩ := Option.map_eq_some_iff.mp hroot
  exact ⟨v, _, Prod.ext hrun rfl, hv⟩

/-- Only the empty file is listed, but both are analysed. -/
theorem analyze_zeroLimit : ∃ v after, (survey zeroLimit).runOn {} { files := emptyAndFull } = (.ok (some v), after) ∧
    (analyze zeroLimit).runOn {} { files := emptyAndFull } = (conclude (some v)).runOn {} after ∧
    ¬ Audit.SameFiles v.infos v.analysis := by
  obtain ⟨v, after, hsurvey, hroot⟩ := exists_survey_zeroLimit
  obtain ⟨hrest, _, top, base, -, htop, -, hiff⟩ :=
    analyze_same_files_iff wellFormed_emptyAndFull linkFree_emptyAndFull rfl hsurvey
  refine ⟨v, after, hsurvey, hrest, fun hsame => (hiff.mp hsame).1 ?_⟩
  rw [hroot] at htop
  obtain rfl : ["r"] = top := Except.ok.inj (resolve_emptyAndFull.symm.trans htop)
  refine ⟨rfl, ["b.js"], [49], 0, fun heq => ?_, ?_, rfl, by decide, by decide⟩
  · simpa using List.append_inj_right' heq rfl
  · rw [hroot]
    exact admitted_emptyAndFull (.inr rfl)

end CodeAudit.Command
