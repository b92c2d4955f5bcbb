import CodeAudit.Files.Tree
import CodeAudit.Sequence
import CodeAudit.Text.Blank

/-!
# Artifacts of an analysis

An analysis leaves a report as Markdown and one as JSON. Both are looked for below a directory, and their
texts are joined to the findings that a question may refer to.

## Main definitions

* `Artifacts.find` — the reports below a directory.
* `Artifacts.findings` — the text of the reports below a directory.
-/

namespace CodeAudit

/-- The exported report: the one with the usual name, or else all files that may be one, newest first. -/
inductive Export
  | none
  | one (path : Path)
  | several (paths : List Path)

/-- The reports below a directory. -/
structure Artifacts where
  markdown : Option Path
  json : Export

namespace Artifacts

variable (fs : Files)

/-- The first path at which something stands. -/
def firstPresent : List Path → Except Fault (Option Path)
  | [] => .ok none
  | p :: rest => do if ← fs.exists? p then return some p else firstPresent rest

/-- The two places of a report: in the directory of reports, and beside it. -/
def candidates (scope : Path) (name : String) : List Path :=
  [(scope.child "reports").child name, scope.child name]

/-- When the file of a path was changed last. -/
def changedAt (p : Path) : Except Fault Int :=
  match fs.find p with
  | .ok (_, e) => .ok (Files.timeOf e)
  | .error e => .error (.file e p.toString)

/-- The files in a directory that may be an export, newest first. -/
def exportsIn (dir : Path) : Except Fault (List Path) := do
  let names := (fs.list dir).toOption.getD []
  let paths := (names.filter (Text.endsWith · ".json")).map (Files.extend dir)
  let dated ← paths.mapM fun p => do return (p, ← changedAt fs p)
  return (dated.mergeSort fun a b => b.2 ≤ a.2).map (·.1)

/-- **The reports below a directory.** -/
def find (scope : Path) : Except Fault Artifacts := do
  let scope := Files.pathOf (← fs.resolve scope)
  let markdown ← firstPresent fs (candidates scope "report.md")
  match ← firstPresent fs (candidates scope "report.json") with
  | some p => return ⟨markdown, .one p⟩
  | none =>
    match ← exportsIn fs (scope.child "reports") with
    | [] => return ⟨markdown, .none⟩
    | paths => return ⟨markdown, .several paths⟩

/-- A text of more than `limit` characters without its middle. -/
def shortened (limit : Int) (s : String) : String :=
  let cs := s.toList
  if (cs.length : Int) ≤ limit then s
  else
    String.ofList (Sequence.slice cs 0 (limit.fdiv 2)) ++ "\n...\n" ++
      String.ofList (Sequence.slice cs ((-limit).fdiv 2) cs.length)

/-- The text of a report with a heading; nothing if the report cannot be read. -/
def part (limit : Int) (heading : String) (p : Path) : List String :=
  match fs.readText p with
  | .ok s => ["# " ++ heading ++ "\n" ++ shortened limit s]
  | .error _ => []

/-- **The text of reports.** -/
def text (limit : Int) (a : Artifacts) : Except Fault String := do
  let markdown := (a.markdown.map (part fs limit "report.md")).getD []
  let json ← match a.json with
    | .none => pure []
    | .one p => pure (part fs limit "report.json" p)
    | .several _ => throw (.noAttribute "list" "exists")
  return Text.trim (String.intercalate "\n\n" (markdown ++ json))

/-- The usual limit for the text of a report. -/
def usualLimit : Int := 40000

/-- **The text of the reports below a directory.** -/
def findings (scope : Path) (limit : Int := usualLimit) : Except Fault String := do
  text fs limit (← find fs scope)

end Artifacts

end CodeAudit
