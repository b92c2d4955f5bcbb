import CodeAudit.Analysis.Hotspot
import CodeAudit.Dependency.Graph
import CodeAudit.Detect.Duplication
import CodeAudit.Detect.Performance
import CodeAudit.Detect.Security
import CodeAudit.Detect.Testing
import CodeAudit.Score.Finding
import CodeAudit.Source.Imports
import CodeAudit.Source.Modules
import CodeAudit.Source.Scan

/-!
# Analysis of a repository

An analysis scans a repository, reads its modules, runs every detector on them, scores what they find and
ranks the files.

## Main definitions

* `Analysis.Request` — what is asked of an analysis.
* `Analysis.run` — the analysis of a repository.
-/

namespace CodeAudit

/-- What detectors find. -/
structure Findings where
  complexity : List ComplexityFinding
  documentation : List DocumentationFinding
  security : List SecurityFinding
  testing : List TestGap
  duplication : List DuplicateFinding
  performance : List PerformanceFinding

/-- The findings as values with attributes. -/
def Findings.raw (f : Findings) : RawFindings where
  complexity := f.complexity.map (·.toRecord)
  documentation := f.documentation.map (·.toRecord)
  security := f.security.map (·.toRecord)
  testing := f.testing.map (·.toRecord)
  duplication := f.duplication.map (·.toRecord)
  performance := f.performance.map (·.toRecord)

/-- The numbers that bound an analysis. -/
structure Thresholds where
  warnAt : Datum
  p1 : Datum
  p0 : Datum
  maxBytes : Datum

/-- The result of an analysis. -/
structure Analysis where
  modules : List ModuleUnit
  findings : Findings
  /-- The dependencies: a file, and what it needs. -/
  dependencies : List (String × String)
  graph : Graph
  metrics : Metrics
  hotspots : List (Hotspot Float)
  scored : List (ScoredFinding Float)
  thresholds : Thresholds

namespace Analysis

/-- What is asked of an analysis. -/
structure Request where
  /-- The patterns of the files that are wanted; none stand for the usual ones. -/
  wanted : List String := []
  /-- The patterns of the files that are not wanted; none stand for the usual ones. -/
  unwanted : List String := []
  rules : Datum := .null
  maxBytes : Datum := .null
  warnAt : Datum := .null
  p1 : Datum := .null
  p0 : Datum := .null

/-- The usual patterns of wanted files. -/
def usualWanted : List String := ["**/*.py", "**/*.js", "**/*.ts"]

/-- The usual patterns of unwanted files. -/
def usualUnwanted : List String :=
  [".git/**", "**/.git/**", "**/.venv/**", "**/venv/**", "**/__pycache__/**", "**/node_modules/**"]

/-- The usual greatest size of a file. -/
def usualMaxBytes : Int := 2000000

/-- A list, or a default if it is empty. -/
def orUsual (patterns usual : List String) : List String :=
  if patterns.isEmpty then usual else patterns

/-- A section of the rules; rules that are no dictionary have only empty sections. -/
def section? (rules : Datum) (name : String) : Datum :=
  match rules with
  | .dict entries => (Datum.lookup (.text name) entries).getD (.dict [])
  | _ => .dict []

/-- A threshold: the one that is asked for, or the one of the rules. -/
def threshold (request : Request) (asked : Datum) (name : String) : Except Fault Datum :=
  match asked, request.rules with
  | .null, .dict _ => (section? request.rules "complexity").ask name .null
  | _, _ => .ok asked

/-- The files that an analysis looks at. -/
def files (fs : Files) (root : Path) (request : Request) : Except Fault (List FileInfo) := do
  let maxBytes ← (request.maxBytes.orElse (.int usualMaxBytes)).toInt
  Scan.scan fs root
    { wanted := orUsual request.wanted usualWanted
      unwanted := orUsual request.unwanted usualUnwanted
      maxBytes }

/-- The hazards in the text of a module. -/
def hazardsOf (fs : Files) (root : Path) (m : ModuleUnit) : List SecurityFinding :=
  let source := Modules.sourceText fs root m.path
  match Language.ofEnding (root.join m.path).toString with
  | .python => Security.scanScript m.path source
  | .javascript | .typescript => Security.scanText m.path source
  | _ => []

/-- The results of a detector, or nothing if it fails. -/
def orNothing {α : Type} (r : Except Fault (List α)) : List α :=
  match r with
  | .ok xs => xs
  | .error _ => []

/-- What the detectors find in modules. A detector that fails finds nothing. -/
def detect (fs : Files) (root : Path) (rules : Datum) (modules : List ModuleUnit) : Except Fault Findings := do
  let functions := modules.flatMap (·.functions)
  let security := modules.flatMap (hazardsOf fs root)
  let warnAt ← (section? rules "complexity").ask "warn_at" (.int 10)
  let complexity := orNothing (Complexity.detect warnAt functions)
  let duplication := section? rules "duplication"
  let rowLength ← duplication.ask "k_shingle" (.int 7)
  let threshold ← duplication.ask "similarity_threshold" (.float 0.9)
  let duplicates := orNothing (Duplication.detect { rowLength, threshold } functions)
  let (documentation, testing) :=
    (Testing.inspectModules fs root (modules.map fun m => (m.path, m.lang))).toOption.getD ([], [])
  let performance := orNothing (Performance.detect fs root functions)
  return { complexity, documentation, security, testing, duplication := duplicates, performance }

/-- The dependencies of scanned files. -/
def dependenciesOf (fs : Files) (root : Path) (infos : List FileInfo) : List (String × String) :=
  infos.flatMap fun info => (Imports.read fs root info.path info.language).map (info.path.stem, ·)

/-- **The analysis of a repository.** -/
def run (fs : Files) (root : Path) (request : Request) : Except Fault Analysis := do
  let root := Files.pathOf (← fs.resolve root)
  let warnAt ← threshold request request.warnAt "warn_at"
  let p1 ← threshold request request.p1 "p1_cutoff"
  let p0 ← threshold request request.p0 "p0_cutoff"
  let infos ← files fs root request
  let modules ← Modules.readAll fs root (infos.map (·.path))
  let findings ← detect fs root request.rules modules
  let dependencies := dependenciesOf fs root infos
  let graph := Graph.ofEdges dependencies
  let metrics := graph.metrics
  let hotspots := Hotspot.rank metrics.fanIn findings.complexity
  let scored ← ScoredFinding.ofAllRaw (warnAt.orElse (.int 10)) findings.raw
  return {
    modules, findings, dependencies, graph, metrics, hotspots, scored
    thresholds := { warnAt, p1, p0, maxBytes := request.maxBytes } }

end Analysis

end CodeAudit
