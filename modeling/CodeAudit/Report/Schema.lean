import CodeAudit.Datum.Arithmetic

/-!
# The form of an exported report

A report is exported only if it has the required form. Texts and numbers are accepted wherever they can be
taken for the required kind; what is not asked for is left out.

## Main definitions

* `Check` — the outcome of a check.
* `ExportedReport.check` — the report that values describe.
-/

namespace CodeAudit

/-- The outcome of a check. A number that is too great breaks the check off. -/
inductive Check (α : Type)
  | passed (x : α)
  | failed
  | broken (fault : Fault)

namespace Check

variable {α β : Type}

/-- Checks are made side by side: all of them run even if one fails. -/
def apply (f : Check (α → β)) (x : Check α) : Check β :=
  match f, x with
  | broken e, _ => broken e
  | passed g, passed y => passed (g y)
  | _, broken e => broken e
  | _, _ => failed

instance : Applicative Check where
  pure := passed
  seq f x := apply f (x ())

/-- A check that goes on with what another one lets pass. -/
def andThen (c : Check α) (f : α → Check β) : Check β :=
  match c with
  | passed x => f x
  | failed => failed
  | broken e => broken e

/-- A check of a condition. -/
def require (condition : α → Bool) (c : Check α) : Check α :=
  c.andThen fun x => if condition x then passed x else failed

/-- The result of a conversion; only a number that is too great breaks the check off. -/
def ofConversion (r : Except Fault α) : Check α :=
  match r with
  | .ok x => passed x
  | .error .infiniteInteger => broken .infiniteInteger
  | .error .integerTooGreat => broken .integerTooGreat
  | .error _ => failed

/-- The value that passed, or why there is none. -/
def toExcept (c : Check α) : Except Fault α :=
  match c with
  | passed x => .ok x
  | failed => .error .invalidRecord
  | broken e => .error e

/-! ## Kinds of values -/

/-- A text, or the text of a number. -/
def text (d : Datum) : Check String :=
  match d with
  | .text s => passed s
  | .int _ | .float _ | .bool _ => passed d.str
  | _ => failed

/-- An integer, or what can be taken for one. -/
def whole (d : Datum) : Check Int :=
  ofConversion d.toInt

/-- A number, or what can be taken for one. -/
def real (d : Datum) : Check Float :=
  ofConversion d.toFloat

/-- One of several texts. -/
def choice (allowed : List String) (d : Datum) : Check String :=
  match d with
  | .text s => if s ∈ allowed then passed s else failed
  | _ => failed

variable (check : Datum → Check α)

/-- The items of a list or tuple, each of which is checked. -/
def items (d : Datum) : Check (List α) :=
  match d with
  | .list xs => xs.mapA check
  | .tuple xs => xs.mapA check
  | _ => failed

/-- A pair that can be an entry of a dictionary. -/
def pair (d : Datum) : Check (Datum × Datum) :=
  match d.items with
  | .ok [k, v] => if k.unhashableKind?.isNone then passed (k, v) else failed
  | _ => failed

/-- The entries of a dictionary, or of what can be taken for one. -/
def entries (d : Datum) : Check (List (Datum × Datum)) :=
  match d with
  | .dict entries => passed entries
  | d =>
    match d.items with
    | .ok xs => (xs.mapA pair).andThen fun pairs => passed (Datum.insertAll pairs [])
    | .error _ => failed

/-- A dictionary with texts as keys. -/
def dictionary (d : Datum) : Check (List (String × α)) :=
  (entries d).andThen fun es => es.mapA fun (k, v) => Prod.mk <$> text k <*> check v

/-- A value that may be missing. -/
def optional (d : Option Datum) : Check (Option α) :=
  match d with
  | none | some .null => passed none
  | some d => some <$> check d

/-- A value that must be there. -/
def required (d : Option Datum) : Check α :=
  match d with
  | some d => check d
  | none => failed

/-- The look-up of fields in what must be a dictionary with texts as keys. -/
def fields (d : Datum) : Check (String → Option Datum) :=
  (entries d).andThen fun es =>
    if es.all fun (k, _) => k.kind == "str" then passed fun name => Datum.lookup (.text name) es else failed

end Check

open Check

/-! ## Forms -/

/-- A finding as it is exported. -/
structure ExportedFinding where
  id : String
  category : String
  severity : String
  score : Float
  title : String
  file : String
  firstLine : Int
  lastLine : Int
  hint : Option String
  extra : Option (List (Datum × Datum))

/-- Dependency metrics as they are exported. -/
structure ExportedMetrics where
  fanIn : List (String × Int)
  fanOut : List (String × Int)
  cycles : List (List String)
  topFanIn : List (List String)
  topFanOut : List (List String)

/-- A report as it is exported. -/
structure ExportedReport where
  filesScanned : Int
  byLanguage : List (String × Int)
  findings : List ExportedFinding
  metrics : ExportedMetrics

/-- A line number. -/
def lineNumber (d : Datum) : Check Int :=
  require (1 ≤ ·) (whole d)

/-- The finding that a value describes. -/
def ExportedFinding.check (d : Datum) : Check ExportedFinding :=
  (fields d).andThen fun field =>
    ExportedFinding.mk <$> required text (field "id") <*> required text (field "category")
      <*> required (choice ["P0", "P1", "P2", "P3"]) (field "severity")
      <*> required (fun d => require (fun x => 0 ≤ x && x ≤ 1) (real d)) (field "score")
      <*> required text (field "title") <*> required text (field "file")
      <*> required lineNumber (field "start_line") <*> required lineNumber (field "end_line")
      <*> optional text (field "hint") <*> optional entries (field "extra")

/-- The metrics that a value describes. -/
def ExportedMetrics.check (d : Datum) : Check ExportedMetrics :=
  (fields d).andThen fun field =>
    ExportedMetrics.mk <$> required (dictionary whole) (field "fan_in")
      <*> required (dictionary whole) (field "fan_out") <*> required (items (items text)) (field "cycles")
      <*> required (items (items text)) (field "top_fan_in")
      <*> required (items (items text)) (field "top_fan_out")

/-- What a report tells of the files: how many there are, and of which languages. -/
def checkSummary (filesScanned byLanguage : Datum) : Check (Int × List (String × Int)) :=
  Prod.mk <$> require (0 ≤ ·) (whole filesScanned) <*> dictionary whole byLanguage

/-- **The report that values describe.** -/
def ExportedReport.check (filesScanned byLanguage findings metrics : Datum) : Except Fault ExportedReport := do
  let (files, languages) ← (checkSummary filesScanned byLanguage).toExcept
  let body := Prod.mk <$> items ExportedFinding.check findings <*> ExportedMetrics.check metrics
  let (findings, metrics) ← body.toExcept
  return ⟨files, languages, findings, metrics⟩

/-! ## Values -/

/-- Counts as a dictionary; of equal names the last one counts. -/
def countsDatum (counts : List (String × Int)) : Datum :=
  .dict (Datum.insertAll (counts.map fun (k, n) => (.text k, .int n)) [])

/-- Rows of texts as lists. -/
def rowsDatum (rows : List (List String)) : Datum :=
  .list (rows.map fun row => .list (row.map .text))

/-- An exported finding as a value. -/
def ExportedFinding.toDatum (f : ExportedFinding) : Datum :=
  .object [("id", .text f.id), ("category", .text f.category), ("severity", .text f.severity),
    ("score", .float f.score), ("title", .text f.title), ("file", .text f.file),
    ("start_line", .int f.firstLine), ("end_line", .int f.lastLine), ("hint", f.hint.elim .null .text),
    ("extra", f.extra.elim .null .dict)]

/-- Exported metrics as a value. -/
def ExportedMetrics.toDatum (m : ExportedMetrics) : Datum :=
  .object [("fan_in", countsDatum m.fanIn), ("fan_out", countsDatum m.fanOut), ("cycles", rowsDatum m.cycles),
    ("top_fan_in", rowsDatum m.topFanIn), ("top_fan_out", rowsDatum m.topFanOut)]

/-- An exported report as a value. -/
def ExportedReport.toDatum (r : ExportedReport) : Datum :=
  .object [("summary", .object [("files_scanned", .int r.filesScanned), ("by_language", countsDatum r.byLanguage)]),
    ("findings", .list (r.findings.map (·.toDatum))), ("dependencies", r.metrics.toDatum)]

end CodeAudit
