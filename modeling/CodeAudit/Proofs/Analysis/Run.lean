import CodeAudit.Proofs.Score.Finding
import CodeAudit.Proofs.Source.Modules

/-!
# The stages of an analysis

An analysis resolves the root, scans, reads the modules, runs the detectors and scores what they find. This module
opens it once: it says what is known of every analysis that succeeds, and that after a successful scan nothing but
a malformed script can make it fail, provided that the numbers in the request are usable.

## Main definitions

* `Analysis.Stages` — what every stage of an analysis gave.
* `Analysis.Request.Usable` — a request whose rules have sections and whose numbers are numbers.

## Main results

* `Analysis.run_cases` — reading the files decides whether an analysis succeeds.
* `Analysis.exists_run_iff` — an analysis succeeds exactly if no listed script is malformed.
-/

namespace CodeAudit.Analysis

open Outcome Files Modules

variable {fs : Files} {root : Path} {request : Request}

variable {analysis : Analysis} {rules : Datum} {modules : List ModuleUnit} {findings : Findings}
  {f : ComplexityFinding} {top : Place} {infos : List FileInfo}

/-! ## What is known of an analysis -/

/-- **What every stage of an analysis gave**, with the place of the repository and the files that were listed. -/
structure Stages (fs : Files) (root : Path) (request : Request) (analysis : Analysis) (top : Place)
    (infos : List FileInfo) : Prop where
  resolved : fs.resolve root = .ok top
  warnAt : threshold request request.warnAt "warn_at" = .ok analysis.thresholds.warnAt
  scanned : files fs (pathOf top) request = .ok infos
  read : readAll fs (pathOf top) (infos.map (·.path)) = .ok analysis.modules
  detected : detect fs (pathOf top) request.rules analysis.modules = .ok analysis.findings
  dependencies : analysis.dependencies = dependenciesOf fs (pathOf top) infos
  graph : analysis.graph = Graph.ofEdges analysis.dependencies
  metrics : analysis.metrics = analysis.graph.metrics
  scored : ScoredFinding.ofAllRaw (analysis.thresholds.warnAt.orElse (.int 10)) analysis.findings.raw =
    .ok analysis.scored

/-- An analysis that succeeds went through all stages, and at last its findings on complex functions were ranked. -/
lemma stages_and_hotspots_of_run (h : run fs root request = .ok analysis) :
    (∃ top infos, Stages fs root request analysis top infos) ∧
      analysis.hotspots = Hotspot.rank analysis.metrics.fanIn analysis.findings.complexity := by
  unfold run at h
  obtain ⟨top, htop, h⟩ := bind_eq_ok.mp h
  simp only [bind_eq_ok] at h
  obtain ⟨warnAt, hwarnAt, p1, -, p0, -, infos, hinfos, modules, hmodules, findings, hfindings, scored, hscored, h⟩ :=
    h
  obtain rfl := Except.ok.inj h
  exact ⟨⟨top, infos, htop, hwarnAt, hinfos, hmodules, hfindings, rfl, rfl, rfl, hscored⟩, rfl⟩

/-- **An analysis that succeeds went through all stages.** -/
lemma stages_of_run (h : run fs root request = .ok analysis) :
    ∃ top infos, Stages fs root request analysis top infos :=
  (stages_and_hotspots_of_run h).1

/-- **What the detectors give**, where `warnAt` is the threshold of the rules. -/
lemma of_detect (h : detect fs root rules modules = .ok findings) :
    ∃ warnAt, (section? rules "complexity").ask "warn_at" (.int 10) = .ok warnAt ∧
      findings.security = modules.flatMap (hazardsOf fs root) ∧
      findings.complexity = orNothing (Complexity.detect warnAt (modules.flatMap (·.functions))) ∧
      findings.performance = orNothing (Performance.detect fs root (modules.flatMap (·.functions))) ∧
      (findings.documentation, findings.testing) =
        (Testing.inspectModules fs root (modules.map fun m => (m.path, m.lang))).toOption.getD ([], []) := by
  unfold detect at h
  obtain ⟨warnAt, hwarnAt, h⟩ := bind_eq_ok.mp h
  obtain ⟨rowLength, -, h⟩ := bind_eq_ok.mp h
  obtain ⟨least, -, h⟩ := bind_eq_ok.mp h
  obtain rfl := Except.ok.inj h
  exact ⟨warnAt, hwarnAt, rfl, rfl, rfl, rfl⟩

/-- **A finding on a complex function** is what the detector tells of the function, by the threshold of the rules. -/
lemma exists_inspect_of_mem_complexity
    (h : detect fs root rules modules = .ok findings) (hf : f ∈ findings.complexity) :
    ∃ warnAt, (section? rules "complexity").ask "warn_at" (.int 10) = .ok warnAt ∧
      ∃ fn ∈ modules.flatMap (·.functions), Complexity.inspect warnAt fn = .ok (some f) := by
  obtain ⟨warnAt, hwarnAt, -, hcomplexity, -⟩ := of_detect h
  rw [hcomplexity] at hf
  unfold orNothing Complexity.detect at hf
  cases hrow : (modules.flatMap (·.functions)).mapM (Complexity.inspect warnAt) with
  | error e => simp [hrow, Except.map] at hf
  | ok found =>
    simp only [hrow, Except.map, List.mem_filterMap, id_eq, exists_eq_right] at hf
    exact ⟨warnAt, hwarnAt, exists_of_mem_mapM hrow hf⟩

/-- What is told of a function is its complexity, which reaches the threshold, its file and its lines. -/
lemma of_inspect {warnAt : Datum} {fn : FunctionUnit} (h : Complexity.inspect warnAt fn = .ok (some f)) :
    Complexity.complexity fn = .ok f.value ∧ Datum.ordered .ge (.int f.value) warnAt = .ok true ∧
      f.file = fn.path.toString ∧ f.firstLine = fn.firstLine ∧ f.lastLine = fn.lastLine := by
  unfold Complexity.inspect at h
  obtain ⟨value, hvalue, h⟩ := bind_eq_ok.mp h
  obtain ⟨above, habove, h⟩ := bind_eq_ok.mp h
  cases above with
  | false => cases Except.ok.inj h
  | true =>
    obtain ⟨bound, -, h⟩ := bind_eq_ok.mp h
    obtain rfl := Option.some.inj (Except.ok.inj h)
    exact ⟨hvalue, habove, rfl, rfl, rfl⟩

/-- A finding on a complex function tells the complexity of the function, its file and its lines. -/
lemma exists_function_of_mem_complexity
    (h : detect fs root rules modules = .ok findings) (hf : f ∈ findings.complexity) :
    ∃ fn ∈ modules.flatMap (·.functions), Complexity.complexity fn = .ok f.value ∧ f.file = fn.path.toString ∧
      f.firstLine = fn.firstLine ∧ f.lastLine = fn.lastLine := by
  obtain ⟨warnAt, -, fn, hfn, hinspect⟩ := exists_inspect_of_mem_complexity h hf
  obtain ⟨hvalue, -, hplace⟩ := of_inspect hinspect
  exact ⟨fn, hfn, hvalue, hplace⟩

/-- The findings on complex functions are scored without loss, because the functions come from programs. -/
lemma plain_of_detect {paths : List Path}
    (hmodules : readAll fs root paths = .ok modules) (h : detect fs root rules modules = .ok findings) :
    ∀ f ∈ findings.complexity, f.Plain := by
  intro f hf
  obtain ⟨fn, hfn, hvalue, -, hfirst, hlast⟩ := exists_function_of_mem_complexity h hf
  obtain ⟨path, -, -, node, rfl⟩ := of_mem_flatMap_functions hmodules hfn
  exact ⟨⟨node.firstLine, node.lastLine, hfirst, hlast⟩, natAbs_complexity_le hvalue⟩

/-! ## Usable requests -/

/-- **A request whose rules have sections and whose numbers are numbers.** -/
structure Request.Usable (request : Request) : Prop where
  maxBytes : ∃ n, (request.maxBytes.orElse (.int usualMaxBytes)).toInt = .ok n
  complexity : ∃ entries, section? request.rules "complexity" = .dict entries
  duplication : ∃ entries, section? request.rules "duplication" = .dict entries
  warnAt : ∀ warnAt, threshold request request.warnAt "warn_at" = .ok warnAt → (warnAt.orElse (.int 10)).Divides

/-- A request that asks for nothing in particular but files is usable. -/
lemma Request.usable_of_wanted (wanted : List String) : Request.Usable { wanted := wanted } where
  maxBytes := ⟨usualMaxBytes, rfl⟩
  complexity := ⟨[], rfl⟩
  duplication := ⟨[], rfl⟩
  warnAt := by
    rintro warnAt hwarnAt
    obtain rfl : Datum.null = warnAt := Except.ok.inj hwarnAt
    exact ⟨rfl, 10, 10, by decide +kernel, by decide +kernel, by decide +kernel⟩

namespace Request.Usable

/-- The options with which a usable request scans. -/
lemma files_eq (h : request.Usable) :
    ∃ maxBytes, (request.maxBytes.orElse (.int usualMaxBytes)).toInt = .ok maxBytes ∧ ∀ fs root,
      files fs root request = Scan.scan fs root
        { wanted := orUsual request.wanted usualWanted
          unwanted := orUsual request.unwanted usualUnwanted
          maxBytes } := by
  obtain ⟨maxBytes, hmaxBytes⟩ := h.maxBytes
  refine ⟨maxBytes, hmaxBytes, fun fs root => ?_⟩
  rw [files, hmaxBytes]
  rfl

/-- A usable request has all thresholds. -/
lemma exists_threshold (h : request.Usable) (asked : Datum) (name : String) :
    ∃ value, threshold request asked name = .ok value := by
  obtain ⟨entries, hentries⟩ := h.complexity
  unfold threshold
  split
  · rw [hentries]
    exact ⟨_, rfl⟩
  · exact ⟨_, rfl⟩

/-- With a usable request the detectors give a result. -/
lemma exists_detect (h : request.Usable) (fs : Files) (root : Path) (modules : List ModuleUnit) :
    ∃ findings, detect fs root request.rules modules = .ok findings := by
  obtain ⟨entries, hcomplexity⟩ := h.complexity
  obtain ⟨entries', hduplication⟩ := h.duplication
  unfold detect
  rw [hcomplexity, hduplication]
  exact ⟨_, rfl⟩

end Request.Usable

/-- **Reading the files decides whether an analysis succeeds**, if they can be scanned. -/
lemma run_cases (husable : request.Usable) (htop : fs.resolve root = .ok top)
    (hinfos : files fs (pathOf top) request = .ok infos) :
    (∃ modules analysis, readAll fs (pathOf top) (infos.map (·.path)) = .ok modules ∧
      run fs root request = .ok analysis) ∨
    ∃ e, readAll fs (pathOf top) (infos.map (·.path)) = .error e ∧ run fs root request = .error e := by
  obtain ⟨warnAt, hwarnAt⟩ := husable.exists_threshold request.warnAt "warn_at"
  obtain ⟨p1, hp1⟩ := husable.exists_threshold request.p1 "p1_cutoff"
  obtain ⟨p0, hp0⟩ := husable.exists_threshold request.p0 "p0_cutoff"
  unfold run
  simp only [htop, hwarnAt, hp1, hp0, hinfos, bind, Except.bind]
  cases hmodules : readAll fs (pathOf top) (infos.map (·.path)) with
  | error e => exact .inr ⟨e, rfl, rfl⟩
  | ok modules =>
    obtain ⟨findings, hfindings⟩ := husable.exists_detect fs (pathOf top) modules
    obtain ⟨scored, hscored⟩ := Findings.exists_ofAllRaw (husable.warnAt _ hwarnAt) (plain_of_detect hmodules hfindings)
    simp only [hfindings, hscored]
    exact .inl ⟨_, _, rfl, rfl⟩

/-- **An analysis of files that can be read succeeds**, and the detectors are run on what was read. -/
lemma exists_run_of_readAll (husable : request.Usable) (htop : fs.resolve root = .ok top)
    (hinfos : files fs (pathOf top) request = .ok infos)
    (hmodules : readAll fs (pathOf top) (infos.map (·.path)) = .ok modules) :
    ∃ a, run fs root request = .ok a ∧ detect fs (pathOf top) request.rules modules = .ok a.findings := by
  rcases run_cases husable htop hinfos with ⟨-, a, -, hrun⟩ | ⟨e, herror, -⟩
  · obtain ⟨top', infos', hstages⟩ := stages_of_run hrun
    obtain rfl : top = top' := Except.ok.inj (htop.symm.trans hstages.resolved)
    obtain rfl : infos = infos' := Except.ok.inj (hinfos.symm.trans hstages.scanned)
    obtain rfl : modules = a.modules := Except.ok.inj (hmodules.symm.trans hstages.read)
    exact ⟨a, hrun, hstages.detected⟩
  · cases hmodules.symm.trans herror

/-- **An analysis succeeds exactly if the files can be scanned and no listed script is malformed.** -/
lemma exists_run_iff (husable : request.Usable) (htop : fs.resolve root = .ok top) :
    (∃ analysis, run fs root request = .ok analysis) ↔
      ∃ infos, files fs (pathOf top) request = .ok infos ∧
        ∀ path ∈ infos.map (·.path), ¬ IsMalformed fs (pathOf top) path := by
  constructor
  · rintro ⟨analysis, hrun⟩
    obtain ⟨top', infos, hstages⟩ := stages_of_run hrun
    obtain rfl : top = top' := Except.ok.inj (htop.symm.trans hstages.resolved)
    exact ⟨infos, hstages.scanned, exists_readAll_iff.mp ⟨_, hstages.read⟩⟩
  · rintro ⟨infos, hinfos, hprograms⟩
    obtain ⟨modules, hmodules⟩ := exists_readAll_iff.mpr hprograms
    exact (exists_run_of_readAll husable htop hinfos hmodules).imp fun _ h => h.1

/-! ## Small repositories -/

/-- A repository of one file. -/
def lone (name : String) (bytes : List UInt8) : Files :=
  ⟨[([name], .file bytes 0)], []⟩

/-- A request for all files. -/
def allFiles : Request :=
  { wanted := ["*"] }

/-- A repository of two scripts. -/
def pair (first second : List UInt8) : Files :=
  ⟨[(["a.py"], .file first 0), (["b.py"], .file second 0)], []⟩

/-- A request for all scripts. -/
def allScripts : Request :=
  { wanted := ["*.py"] }

/-- A call of `eval` is found and scored. -/
lemma exists_run_eval : ∃ a, run (pair (Text.encode "eval(x)\n") []) ⟨"", []⟩ allScripts = .ok a ∧
    a.findings.raw.of .security ≠ [] ∧ ∃ s ∈ a.scored, s.category = .security := by
  have hfound : ((run (pair (Text.encode "eval(x)\n") []) ⟨"", []⟩ allScripts).toOption.map fun a =>
      ((a.findings.raw.of .security).isEmpty, a.scored.any (·.category = .security))) = some (false, true) := by
    decide +kernel
  obtain ⟨a, hrun, hfound⟩ := exists_ok_of_map hfound
  obtain ⟨hraw, hscored⟩ := Prod.mk.inj hfound
  exact ⟨a, hrun, by simpa using hraw, by simpa using hscored⟩

end CodeAudit.Analysis
