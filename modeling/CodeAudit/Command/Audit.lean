import CodeAudit.Command.Parameter
import CodeAudit.Session.Basic

/-!
# The command that audits a repository

## Main definitions

* `Command.analyze` — scans and analyses a repository and writes the reports.
-/

namespace CodeAudit.Command

/-- A path that an argument names. -/
def pathOf (args : Arguments) (name : String) : Action Path :=
  match args.value name with
  | .text s => pure (.ofString s)
  | d => throw (.fault (.notPath d.kind))

/-- A path that an argument names and that must exist. -/
def existingPath (args : Arguments) (name : String) : Action Path := do
  let path ← pathOf args name
  if ← Action.reading (·.exists? path) then return path
  else
    Action.complain ("Path not found: " ++ path.toString)
    Action.exit 2

/-- What bounds an audit, by the patterns among the arguments. -/
def scopeOf (args : Arguments) (root : Path) (maxBytes : Datum) : Audit.Scope :=
  { root, wanted := args.texts "include", unwanted := args.texts "exclude", maxBytes }

/-- The files within a scope; without any, the program ends. -/
def filesWithin (scope : Audit.Scope) : Action (List FileInfo) := do
  let infos ← Action.reading fun fs => Audit.files fs scope
  if infos.isEmpty then
    Action.say "No files matched include/exclude filters."
    Action.exit 0
  else return infos

/-- A row on a scanned file. -/
def fileRow (f : FileInfo) : List String :=
  [f.path.toString, f.language.tag, toString f.lines, toString f.bytes]

/-- Shows the first files. -/
def showFiles (infos : List FileInfo) : Action Unit := do
  Action.display (.table "Scanned Files" ["Path", "Lang", "Lines", "Bytes"] ((infos.take 50).map fileRow))
  if infos.length > 50 then Action.print ("... and " ++ toString (infos.length - 50) ++ " more")

/-- Runs an action; if it fails, the program ends after a line that tells why. -/
def orExit {α : Type} (heading : String) (a : Action α) : Action α := do
  match ← Action.attempt a with
  | .ok x => return x
  | .error f =>
    Action.say (heading ++ f.message)
    Action.exit 1

/-- Runs the detectors and adds their findings to a report. -/
def detect (rules : Datum) (scope : Audit.Scope) (report : Path) : Action Analysis := do
  let analysis ← Action.files (Audit.analyse rules scope)
  Action.files (Report.findings report analysis)
  Action.say ("Appended findings, category summaries, and details: " ++ report.toString)
  return analysis

/-- Adds the dependencies to a report and exports it. -/
def relate (report out : Path) (count : Nat) (analysis : Analysis) : Action Unit := do
  let metrics ← Action.ofResult (Audit.normalMetrics analysis)
  let (graph, json) ← Action.files (Report.dependencies report out count metrics analysis)
  let artifacts := graph.toList ++ [json]
  Action.say ("Wrote artifacts: " ++ Text.joinWith ", " (artifacts.map (·.toString)))

/-- **Scans and analyses a repository and writes the reports.** -/
def analyze (args : Arguments) : Action Unit := do
  let root ← existingPath args "path"
  let rules ← Action.rules (← pathOf args "rules_file")
  let _ ← Action.ofResult (Audit.weights rules)
  let out ← pathOf args "output_dir"
  Action.rule "[bold]Scanning repository"
  let scope := scopeOf args root (args.value "max_bytes")
  let infos ← filesWithin scope
  showFiles infos
  let report ← Action.files (Audit.start out infos)
  Action.say ("Wrote summary: " ++ report.toString)
  unless (args.value "no_findings").truthy do
    Action.rule "[bold]Running detectors"
    let analysis ← orExit "Detector pipeline failed: " (detect rules scope report)
    Action.rule "[bold]Analyzing dependencies"
    orExit "Dependency/report export failed: " (relate report out infos.length analysis)

end CodeAudit.Command
