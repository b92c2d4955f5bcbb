import CodeAudit.Datum.Lenient
import CodeAudit.Sequence.Sort
import CodeAudit.Text.Case

/-!
# Sections of the Markdown report

Every section is a text made from values of any kind: what a value lacks has a default.

## Main definitions

* `Markdown.overview` — the head of the report with the list of files.
* `Markdown.dependencies`, `Markdown.dependencyOutline` — sections on the dependency graph.
-/

namespace CodeAudit.Markdown

open CodeAudit.Datum (fieldOr)

/-- A number in decimal digits. -/
def number (n : Int) : String := Number.decimalInt n

/-! ## Overview -/

/-- The list of sections. -/
def contents : String :=
  "\n- [Summary](#summary)\n- [Top issues](#top-issues)\n- [Per-category](#per-category)\n" ++
    "- [Issue details](#issue-details)\n- [Dependencies](#dependencies)\n"

variable (f : Datum)

/-- The language of a file. -/
def languageOf : Datum := f.fieldOr "language" (.text "unknown")

/-- The languages of files, each of which must be able to be a key. -/
def languagesOf (files : List Datum) : Except Fault (List Datum) :=
  files.mapM fun f =>
    match (languageOf f).unhashableKind? with
    | some kind => .error (.unhashable kind)
    | none => .ok (languageOf f)

/-- The line on a file. -/
def fileLine : Except Fault String := do
  let lines ← ((f.fieldOr "lines" (.int 0)).orElse (.int 0)).toInt
  return "- " ++ (f.fieldOr "path" (.text "")).str ++ " (" ++ (languageOf f).str ++ ", " ++ number lines ++
    " lines)\n"

/-- **The head of the report with the list of files.** -/
def overview (files : Datum) : Except Fault String := do
  let files ← files.items
  let languages ← languagesOf files
  let count (tag : String) : String := number (languages.countP (· == .text tag))
  let listing ← files.mapM fileLine
  return "# Code Quality Report\n" ++ contents ++ "\n## Summary\n- Files scanned: " ++ number files.length ++
    "\n- Python: " ++ count "python" ++ "  |  JavaScript: " ++ count "javascript" ++ "  |  TypeScript: " ++
    count "typescript" ++ "\n\n### File listing\n" ++ String.join listing

/-! ## Scored findings -/

/-- The line that tells that nothing is found. -/
def nothingFound : String := "- No issues found.\n"

variable (s : Datum)

/-- The score of a finding; what is no number counts as zero. -/
def scoreOf : Float :=
  (Lenient.anyFloat (s.fieldOr "score" (.float 0)) (.float 0)).toOption.getD 0

/-- A line number of a finding. -/
def lineOf (name : String) (default : Int) : Except Fault Int :=
  ((s.fieldOr name (.int default)).orElse (.int default)).toInt

/-- Where a finding is. -/
def location : Except Fault String := do
  let first ← lineOf s "start_line" 1
  let last ← lineOf s "end_line" first
  return (s.fieldOr "file" (.text "")).str ++ ":" ++ number first ++ "-" ++ number last

/-- The severity of a finding. -/
def severityOf : String := (s.fieldOr "severity" (.text "P3")).str

/-- The title of a finding, or why it matters. -/
def titleOf : String := (s.fieldOr "title" (s.fieldOr "why" (.text "Issue"))).str

/-- Findings in the order of decreasing score. -/
def byScore (scored : List Datum) : Except Fault (List Datum) :=
  Sequence.sortDownM Datum.less (fun s => .float (scoreOf s)) scored

/-- The row on a finding. -/
def issueRow : Except Fault String := do
  let place ← location s
  return "| " ++ severityOf s ++ " | " ++ Number.fixed 2 (scoreOf s) ++ " | " ++
    (s.fieldOr "category" (.text "issue")).str ++ " | " ++ place ++ " | " ++ titleOf s ++ " |\n"

/-- **The table of the findings with the greatest scores.** -/
def topIssues (scored : Datum) (count : Datum := .int 10) : Except Fault String := do
  if !scored.truthy then return "\n## Top issues\n" ++ nothingFound
  let top ← Datum.firstOf (← byScore (← scored.items)) count
  let rows ← top.mapM issueRow
  return "\n## Top issues\n| Severity | Score | Category | Location | Title |\n|---|---:|---|---|---|\n" ++
    String.join rows

/-- The category of a finding. -/
def categoryOf : Datum := s.fieldOr "category" (.text "other")

/-- Puts a finding into the group of its category. -/
def addToGroup : List (Datum × List Datum) → List (Datum × List Datum)
  | [] => [(categoryOf s, [s])]
  | (c, members) :: rest =>
    if c == categoryOf s then (c, members ++ [s]) :: rest else (c, members) :: addToGroup rest

/-- Findings in groups, in the order in which the categories are first seen. -/
def groups (scored : List Datum) : Except Fault (List (Datum × List Datum)) :=
  scored.foldlM
    (fun acc s =>
      match (categoryOf s).unhashableKind? with
      | some kind => .error (.unhashable kind)
      | none => .ok (addToGroup s acc)) []

/-- The heading of a category. -/
def heading (category : Datum) : Except Fault String :=
  match category with
  | .text s => .ok (Text.capitalize s)
  | d => .error (.noAttribute d.kind "capitalize")

/-- The line on a finding below the heading of its category. -/
def issueLine : Except Fault String := do
  let place ← location s
  return "- [" ++ severityOf s ++ "] " ++ titleOf s ++ " — " ++ place ++ " — score " ++
    Number.fixed 2 (scoreOf s) ++ "\n"

/-- The part on a category with its findings. -/
def categoryPart (count : Datum) (group : Datum × List Datum) : Except Fault String := do
  let title ← heading group.1
  let first ← Datum.firstOf group.2 count
  let lines ← first.mapM issueLine
  return "\n### " ++ title ++ " (" ++ number group.2.length ++ ")\n" ++ String.join lines

/-- The findings of a category in the order of decreasing score, then of their files. -/
def sortGroup (group : Datum × List Datum) : Except Fault (Datum × List Datum) := do
  let members ← Sequence.sortByKeyM Datum.less
    (fun s => .tuple [.float (-scoreOf s), s.fieldOr "file" (.text "")]) group.2
  return (group.1, members)

/-- **The section on the categories**, those with the most findings first. -/
def perCategory (scored : Datum) (count : Datum := .int 5) : Except Fault String := do
  let sorted ← (← groups (← scored.items)).mapM sortGroup
  if sorted.isEmpty then return "\n## Per-category\n" ++ nothingFound
  let ordered ← Sequence.sortByKeyM Datum.less
    (fun g : Datum × List Datum => .tuple [.int (-g.2.length), g.1]) sorted
  let parts ← ordered.mapM (categoryPart count)
  return "\n## Per-category\n" ++ String.join parts

/-- The lines on a finding with reason and advice. -/
def issueParagraph : Except Fault String := do
  let place ← location s
  return "- [" ++ severityOf s ++ " • " ++ Number.fixed 2 (scoreOf s) ++ "] " ++ titleOf s ++
    "\n  - Where: " ++ place ++ "\n  - Why: " ++ (s.fieldOr "why" (.text "")).str ++
    "\n  - Fix: " ++ (s.fieldOr "fix" (.text "")).str ++ "\n"

/-- The details of the findings of a category, fifty at most. -/
def detailPart (group : Datum × List Datum) : Except Fault String := do
  let title ← heading group.1
  let sorted ← byScore group.2
  let paragraphs ← (sorted.take 50).mapM issueParagraph
  return "\n### " ++ title ++ "\n" ++ String.join paragraphs

/-- **The section with the details of findings.** -/
def issueDetails (scored : Datum) : Except Fault String := do
  if !scored.truthy then return "\n## Issue details\n" ++ nothingFound
  let parts ← (← groups (← scored.items)).mapM detailPart
  return "\n## Issue details\n" ++ String.join parts

/-! ## Raw findings -/

/-- A value as an integer, with a default. -/
def count (d : Datum) (default : Int := 0) : Int :=
  (Lenient.anyInt d (.int default)).toOption.getD default

/-- Where a raw finding is. -/
def rawLocation : String :=
  let first := count (f.fieldOr "start_line" (.int 1)) 1
  let last := count (f.fieldOr "end_line" (.int first)) first
  (f.fieldOr "file" (.text "")).str ++ ":" ++ number first ++ "-" ++ number last

/-- The line on a raw finding with its message. -/
def messageLine : String :=
  "- " ++ rawLocation f ++ " — " ++ (f.fieldOr "message" (.text "")).str ++ "\n"

/-- The line on a duplication. -/
def duplicateLine : String :=
  let (first, second) := match Lenient.sequence? (f.fieldOr "files" (.tuple [])) with
    | some (a :: b :: _) => (a.str, b.str)
    | some [a] => (a.str, "")
    | _ => ("", "")
  let pair := if second.isEmpty then (if first.isEmpty then "<unknown>" else first) else first ++ " vs " ++ second
  "- " ++ pair ++ " — " ++ (f.fieldOr "message" (.text "duplicate")).str ++ "\n"

/-- The line on slow code. -/
def slownessLine : String :=
  "- " ++ rawLocation f ++ " — " ++ (f.fieldOr "message" (.text "")).str ++ " — Hint: " ++
    (f.fieldOr "hint" (.text "")).str ++ "\n"

/-- The line on a missing test. -/
def gapLine : String :=
  "- " ++ (f.fieldOr "file" (.text "")).str ++ " — Missing mapped test ⇒ " ++
    (f.fieldOr "expected_test" (.text "tests/test_<name>.py")).str ++ " — Hint: " ++
    (f.fieldOr "hint" (.text "Create a test file")).str ++ "\n"

/-- The part on the raw findings of a category. -/
def rawPart (findings : Datum) (title key : String) (line : Datum → String) : Except Fault String := do
  let found := ((Datum.lookup (.text key) (← findings.entriesAs "get")).getD (.list [])).orElse (.list [])
  let size ← found.length
  return "\n### " ++ title ++ " (" ++ number size ++ ")\n" ++ String.join ((← found.items).map line)

/-- **The section on raw findings.** -/
def rawFindings (findings : Datum) : Except Fault String := do
  let security ← rawPart findings "Security" "security" messageLine
  let complexity ← rawPart findings "Complexity" "complexity" messageLine
  let duplication ← rawPart findings "Duplication" "duplication" duplicateLine
  let performance ← rawPart findings "Performance" "performance" slownessLine
  let documentation ← rawPart findings "Documentation" "documentation" messageLine
  let testing ← rawPart findings "Testing" "testing" gapLine
  return "\n## Findings\n" ++ security ++ complexity ++ duplication ++ performance ++ documentation ++ testing

/-! ## Dependencies -/

/-- What a report tells of dependency metrics. -/
structure Shown where
  fanIn : Datum
  topFanIn : Datum
  topFanOut : Datum
  cycles : Datum

/-- The metrics that are told; what is missing is empty. -/
def shownMetrics (metrics : Datum) : Except Fault Shown := do
  let entries ← metrics.entriesAs "get"
  let get (key : String) (default : Datum) : Datum :=
    ((Datum.lookup (.text key) entries).getD default).orElse default
  return ⟨get "fan_in" (.dict []), get "top_fan_in" (.list []), get "top_fan_out" (.list []),
    get "cycles" (.list [])⟩

/-- The line on a row of a ranking. -/
def rankingLine (row : Datum) : String :=
  match Lenient.sequence? row with
  | some (n :: v :: _) => "  - " ++ n.str ++ ": " ++ number (count v) ++ "\n"
  | _ => "  - " ++ row.str ++ ": 0\n"

/-- The lines on the first five rows of a ranking. -/
def ranking (rows : Datum) : Except Fault String := do
  return String.join (((← rows.items).take 5).map rankingLine)

/-- The line on a cycle. -/
def cycleLine (cycle : Datum) : Except Fault String := do
  return "  - " ++ String.intercalate " -> " ((← cycle.items).map (·.str)) ++ "\n"

/-- The number of cycles and the first five of them. -/
def cyclePart (title : String) (cycles : Datum) : Except Fault String := do
  if !cycles.truthy then return "- " ++ title ++ ": 0\n"
  let size ← cycles.length
  let lines ← ((← cycles.items).take 5).mapM cycleLine
  return "- " ++ title ++ ": " ++ number size ++ "\n" ++ String.join lines

/-- **The section on dependencies.** -/
def dependencies (metrics : Datum) : Except Fault String := do
  let m ← shownMetrics metrics
  let nodes ← m.fanIn.length
  let fanIn ← ranking m.topFanIn
  let fanOut ← ranking m.topFanOut
  let cycles ← cyclePart "Cycles detected" m.cycles
  return "\n## Dependencies\n- Nodes: " ++ number nodes ++ "\n- Top fan-in:\n" ++ fanIn ++
    "- Top fan-out:\n" ++ fanOut ++ cycles

/-- The number of edges, from the numbers of edges into the nodes. -/
def edgeCount (fanIn : Datum) : Int :=
  match fanIn with
  | .dict entries => entries.foldr (fun (_, v) sum => count v + sum) 0
  | _ => 0

/-- The four parts of a hotspot. -/
def hotspotParts (row : Datum) : Except Fault (Datum × Datum × Datum × Datum) :=
  match row.items with
  | .error _ => .error (.notUnpackable row.kind)
  | .ok [path, score, fanIn, complexity] => .ok (path, score, fanIn, complexity)
  | .ok parts =>
    .error (if parts.length < 4 then .tooFewValues 4 parts.length else .tooManyValues 4)

/-- The line on a hotspot. -/
def hotspotLine (row : Datum) : Except Fault String := do
  let (path, score, fanIn, complexity) ← hotspotParts row
  let score := (Lenient.anyFloat score (.float 0)).toOption.getD 0
  return "  - " ++ path.str ++ " — score " ++ Number.fixed 2 score ++ " (fan-in " ++ number (count fanIn) ++
    ", complexity " ++ number (count complexity) ++ ")\n"

/-- The first eight hotspots. -/
def firstHotspots (hotspots : Datum) : Except Fault (List Datum) :=
  match hotspots with
  | .dict _ => .error (.unhashable "slice")
  | .list xs => .ok (xs.take 8)
  | .tuple xs => .ok (xs.take 8)
  | .text s => .ok ((s.toList.take 8).map fun c => .text (String.singleton c))
  | d => .error (.notSubscriptable d.kind)

/-- The part on hotspots. -/
def hotspotPart (hotspots : Datum) : Except Fault String := do
  if !hotspots.truthy then return ""
  let lines ← (← firstHotspots hotspots).mapM hotspotLine
  return "- Hotspots (fan-in × complexity):\n" ++ String.join lines

/-- **The section that outlines the dependency graph.** -/
def dependencyOutline (metrics hotspots : Datum) : Except Fault String := do
  let m ← shownMetrics metrics
  let nodes ← m.fanIn.length
  let fanIn ← ranking m.topFanIn
  let fanOut ← ranking m.topFanOut
  let cycles ← cyclePart "Cycles" m.cycles
  let hot ← hotspotPart hotspots
  return "\n## Dependency outline\n- Graph summary:\n  - Nodes: " ++ number nodes ++ "\n  - Edges: " ++
    number (edgeCount m.fanIn) ++ "\n- Top fan-in modules:\n" ++ fanIn ++ "- Top fan-out modules:\n" ++ fanOut ++
    cycles ++ hot

end CodeAudit.Markdown
