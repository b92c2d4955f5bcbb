import CodeAudit.Report.Write
import CodeAudit.Rules

/-!
# Audits

An audit scans a repository, analyses it by rules, and writes the reports.

## Main definitions

* `Audit.files` — the files that an audit looks at.
* `Audit.start`, `Audit.finish`, `Audit.complete` — the analysis and its reports, step by step and at once.
-/

namespace CodeAudit.Audit

/-- What bounds an audit. -/
structure Scope where
  root : Path
  wanted : List String
  unwanted : List String
  /-- The greatest size of a file. -/
  maxBytes : Datum

/-- A size that no file exceeds. -/
def noLimit : Int := 0x8000000000000000

/-- The greatest whole size within a limit, if the limit is a number. -/
def wholeLimit? (limit : Datum) : Option Int :=
  limit.numeric?.map fun
    | .int n => n
    | .float x =>
      match Number.truncate x with
      | .ok n => if x < Number.ofInt n then n - 1 else n
      | .error _ => if x < 0 then -1 else noLimit

/-- **The files within a scope.** A limit that is no number cannot be compared with any size. -/
def files (fs : Files) (scope : Scope) : Except Fault (List FileInfo) := do
  let scan (maxBytes : Int) := Scan.scan fs scope.root { wanted := scope.wanted, unwanted := scope.unwanted, maxBytes }
  match wholeLimit? scope.maxBytes with
  | some n => scan n
  | none =>
    let infos ← scan noLimit
    if infos.isEmpty then return [] else throw (.unordered ">" "int" scope.maxBytes.kind)

/-- The weights that rules set. -/
def weights (rules : Datum) : Except Fault Weights := do
  Weights.override (← rules.ask "weights" .null) Weights.standard

/-- What is asked of an analysis by rules, whose sections must be dictionaries. -/
def request (rules : Datum) (scope : Scope) : Except Fault Analysis.Request := do
  let warnAt ← (← rules.ask "complexity" (.dict [])).ask "warn_at" (.int 10)
  let _ ← (← rules.ask "duplication" (.dict [])).entriesAs "get"
  return { wanted := scope.wanted, unwanted := scope.unwanted, rules, maxBytes := scope.maxBytes, warnAt }

/-- Analyses a repository by rules. -/
def analyse (rules : Datum) (scope : Scope) : FileTask Analysis := do
  let request ← FileTask.ofResult (request rules scope)
  FileTask.reading fun fs => Analysis.run fs scope.root request

/-- The metrics of the dependencies in normal form. -/
def normalMetrics (a : Analysis) : Except Fault Datum :=
  DependencyMetrics.normalize (.object [("dep_metrics", a.metrics.toDatum)])

/-- Starts the report on scanned files in a directory. -/
def start (out : Path) (infos : List FileInfo) : FileTask Path := do
  let out ← Report.folder out
  Report.overview (.list (infos.map Report.fileRecord)) out

/-- What an audit leaves. -/
structure Outcome where
  report : Path
  json : Path
  analysis : Analysis

/-- Analyses scanned files and adds the findings and the dependencies to a report that was started.
`metrics` chooses the form in which the metrics of the dependencies are written. -/
def finish (rules : Datum) (scope : Scope) (report out : Path) (count : Nat)
    (metrics : Analysis → Except Fault Datum) : FileTask Outcome := do
  let analysis ← analyse rules scope
  Report.findings report analysis
  let metrics ← FileTask.ofResult (metrics analysis)
  let (_, json) ← Report.dependencies report out count metrics analysis
  return { report, json, analysis }

/-- **Analyses scanned files and writes all reports into a directory.** -/
def complete (rules : Datum) (scope : Scope) (out : Path) (infos : List FileInfo)
    (metrics : Analysis → Except Fault Datum) : FileTask Outcome := do
  let report ← start out infos
  finish rules scope report out infos.length metrics

end CodeAudit.Audit
