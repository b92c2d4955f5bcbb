import CodeAudit.Analysis.Summary
import CodeAudit.Dependency.Normal
import CodeAudit.Files.Task
import CodeAudit.Report.Markdown
import CodeAudit.Report.Schema

/-!
# Writing reports

## Main definitions

* `Report.folder` — the directory of the reports.
* `Report.findings`, `Report.dependencies` — write everything that an analysis tells.
-/

namespace CodeAudit.Report

open FileTask

/-- Makes the directory of the reports, if it is missing. -/
def folder (dir : Path) : FileTask Path := do
  makeFolders dir
  return dir

/-- Starts the Markdown report in a directory, which is made if it is missing. -/
def overview (files : Datum) (dir : Path) : FileTask Path := do
  makeFolders dir
  let text ← ofResult (Markdown.overview files)
  let path := dir.child "report.md"
  changing (·.write path text)
  return path

/-- Adds a section to the Markdown report. -/
def extend (path : Path) (section_ : Except Fault String) : FileTask Unit := do
  let text ← ofResult section_
  changing (·.append path text)

/-- Writes a dependency graph into a directory. -/
def exportGraph (g : Graph) (dir : Path) : FileTask Path := do
  let path := dir.child "dep-graph.json"
  makeFolders path.parent
  changing (·.write path g.toJson)
  return path

/-- Writes a report as JSON into a directory. -/
def exportJson (dir : Path) (filesScanned byLanguage findings metrics : Datum) : FileTask Path := do
  let report ← ofResult (ExportedReport.check filesScanned byLanguage findings metrics)
  let text ← ofResult (Json.writable report.toDatum)
  let path := dir.child "report.json"
  changing (·.write path text)
  return path

/-- What is told of a scanned file. -/
def fileRecord (f : FileInfo) : Datum :=
  .record [("path", .text f.path.toString), ("language", .text f.language.tag), ("lines", .int f.lines),
    ("bytes", .int f.bytes)]

/-- Adds the sections on the findings of an analysis. -/
def findings (path : Path) (a : Analysis) : FileTask Unit := do
  extend path (Markdown.topIssues a.scoredDatum)
  extend path (Markdown.perCategory a.scoredDatum)
  extend path (Markdown.issueDetails a.scoredDatum)
  extend path (Markdown.rawFindings a.rawDatum)

/-- Writes what an analysis tells of dependencies and exports the report; tells where the graph, if it has
nodes, and the report are. -/
def dependencies (path dir : Path) (filesScanned : Nat) (metrics : Datum) (a : Analysis) :
    FileTask (Option Path × Path) := do
  let graph ← if a.graph.nodes.isEmpty then pure none else some <$> exportGraph a.graph dir
  extend path (Markdown.dependencies metrics)
  extend path (Markdown.dependencyOutline metrics a.hotspotsDatum)
  let json ← exportJson dir (.int filesScanned) a.byLanguage a.exported metrics
  return (graph, json)

end CodeAudit.Report
