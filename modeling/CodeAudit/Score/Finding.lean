import CodeAudit.Datum.Lenient
import CodeAudit.Score.Severity

/-!
# Scored findings

The raw findings of a detector are values with attributes. A scored finding tells its category, how severe
it is, where it is, why it matters and what to do about it.

## Main definitions

* `ScoredFinding` — a finding with its score.
* `ScoredFinding.ofAllRaw` — the scored findings of raw ones.
-/

namespace CodeAudit

/-- A finding with its score. -/
structure ScoredFinding (α : Type) where
  id : Datum
  category : Category
  severity : Severity
  score : α
  title : String
  file : String
  firstLine : Int
  lastLine : Int
  why : String
  fix : String
  /-- What only findings of the category tell. -/
  extra : List (String × Datum)

/-- The raw findings of all categories. -/
structure RawFindings where
  complexity : List Datum := []
  documentation : List Datum := []
  security : List Datum := []
  testing : List Datum := []
  duplication : List Datum := []
  performance : List Datum := []

/-- The raw findings of a category. -/
def RawFindings.of (raw : RawFindings) : Category → List Datum
  | .security => raw.security
  | .complexity => raw.complexity
  | .duplication => raw.duplication
  | .performance => raw.performance
  | .documentation => raw.documentation
  | .testing => raw.testing

namespace ScoredFinding

/-- An attribute that a raw finding must have. -/
def required (f : Datum) (name : String) : Except Fault Datum :=
  match f.field? name with
  | some v => .ok v
  | none => .error (.noAttribute f.kind name)

/-- Where a finding is. -/
structure Where where
  file : Datum
  firstLine : Datum
  lastLine : Datum

/-- The place that a raw finding tells. -/
def placeOf (f : Datum) : Except Fault Where := do
  return ⟨← required f "file", ← required f "start_line", ← required f "end_line"⟩

/-- A line as an integer that is at least one. -/
def lineOf (d : Datum) : Except Fault Int := do
  return max 1 (← d.toInt)

/-- What a raw finding of a category is judged by. -/
structure Judgement (α : Type) where
  score : α
  title : String
  /-- The details that the advice looks at. -/
  details : List (String × Datum) := []
  extra : List (String × Datum) := []
  /-- The file, if the one that the finding tells is blank. -/
  fallback : String := ""

variable {α : Type} [Quantity α]

/-- The title of a raw finding: its message, or a default. -/
def titleOf (f : Datum) (default : String) : Except Fault String :=
  Lenient.title default (f.fieldOr "message" .null)

/-- The first file of a duplication, and the second one. -/
def filesOf (f : Datum) : Except Fault (Datum × String) := do
  let files ← ((f.fieldOr "files" (.list [])).orElse (.list [])).items
  match files with
  | [] => return ((f.fieldOr "file" (.text "")).orElse (.text ""), "")
  | [a] => return (.text a.str, "")
  | a :: b :: _ => return (.text a.str, b.str)

/-- The judgement on a complex function. A threshold of the run goes before that of the finding. -/
def judgeComplexity (threshold f : Datum) : Except Fault (Judgement α) := do
  let value ← (f.fieldOr "value" (.float 0)).toFloat
  let bound ← (threshold.orElse (f.fieldOr "threshold" (.int 10))).toFloat
  let score ← Score.complexity (Quantity.ofFloat value) (Weights.standardOf .complexity) (Quantity.ofFloat bound)
  let title ← titleOf f ("High cyclomatic complexity: " ++ Number.decimalInt (← Datum.floatToInt value) ++
    " (≥ " ++ Number.decimalInt (← Datum.floatToInt bound) ++ ")")
  return { score, title, extra := [("value", .float value), ("threshold", .float bound)] }

/-- The judgement on a duplicated function, and where it is. -/
def judgeDuplication (f : Datum) : Except Fault (Judgement α × Where) := do
  let similarity ← (f.fieldOr "similarity" (.float 0)).toFloat
  let score ← Score.duplication (Quantity.ofFloat similarity) (Weights.standardOf .duplication)
  let (file, other) ← filesOf f
  let lines := f.fieldOr "lines" .null
  let (first, last) := if lines == .null then (.int 1, .int 1) else Lenient.span lines (.int 1)
  let title ← titleOf f ("Near-duplicate code (Jaccard " ++ Number.fixed 2 similarity ++ ")")
  let extra := [("other_file", .text other), ("similarity", .float similarity), ("file_fallback", file)]
  return ({ score, title, details := extra, extra, fallback := file.str }, ⟨file, first, last⟩)

/-- The judgement on a finding that counts as much as its category weighs. -/
def judgeByWeight (category : Category) (title : String) (extra : List (String × Datum)) (f : Datum) :
    Except Fault (Judgement α) := do
  let score ← Score.ofWeight (Weights.standardOf category)
  return { score, title := ← titleOf f title, details := extra, extra }

/-- The judgement on a raw finding of a category, and how its place is found. -/
def judge (threshold : Datum) (category : Category) (f : Datum) :
    Except Fault (Judgement α × Except Fault Where) := do
  match category with
  | .security => return (← judgeByWeight category "Potential insecure call" [] f, placeOf f)
  | .complexity => return (← judgeComplexity threshold f, placeOf f)
  | .duplication =>
    let (j, place) ← judgeDuplication f
    return (j, .ok place)
  | .performance =>
    let kind := f.fieldOr "kind" (.text "pattern")
    let j ← judgeByWeight category ("Possible performance issue: " ++ kind.str) [("kind", kind)] f
    return (j, placeOf f)
  | .documentation =>
    let kind := f.fieldOr "kind" (.text "docs")
    let j ← judgeByWeight category ("Missing " ++ kind.str ++ " documentation") [("kind", kind)] f
    return (j, placeOf f)
  | .testing =>
    let expected := f.fieldOr "expected_test" (.text "")
    let j ← judgeByWeight category "Missing mapped test" [("expected_test", expected)] f
    return (j, do return ⟨← required f "file", .int 1, .int 1⟩)

/-- **The scored finding of a raw one.** -/
def ofRaw (threshold : Datum) (category : Category) (f : Datum) : Except Fault (ScoredFinding α) := do
  let (j, place) ← judge threshold category f
  let fix ← advice (some category) (.object j.details)
  let id ← required f "id"
  let place ← place
  let severity ← Severity.ofScore j.score
  let firstLine ← lineOf place.firstLine
  let lastLine ← lineOf place.lastLine
  let file ← Lenient.trimmed place.file
  return {
    id, category, severity, score := j.score
    title := Text.trim j.title
    file := if file.isEmpty then j.fallback else file
    firstLine, lastLine
    why := explain (some category)
    fix := Text.trim fix
    extra := j.extra }

/-- **The scored findings of raw ones**, category by category. -/
def ofAllRaw (threshold : Datum) (raw : RawFindings) : Except Fault (List (ScoredFinding α)) := do
  let groups ← Category.all.mapM fun c => (raw.of c).mapM (ofRaw threshold c)
  return groups.flatten

/-- What a scored finding tells in every form. -/
def coreEntries (f : ScoredFinding Float) : List (String × Datum) :=
  [("id", f.id), ("category", .text f.category.name), ("severity", .text f.severity.name),
    ("score", .float f.score), ("title", .text f.title), ("file", .text f.file),
    ("start_line", .int f.firstLine), ("end_line", .int f.lastLine)]

/-- A scored finding with reason and advice. -/
def toDatum (f : ScoredFinding Float) : Datum :=
  .object (f.coreEntries ++ [("why", .text f.why), ("fix", .text f.fix), ("extra", .object f.extra)])

/-- A scored finding as it is exported. -/
def toExport (f : ScoredFinding Float) : Datum :=
  .object (f.coreEntries ++ [("hint", .text f.fix), ("extra", .object f.extra)])

end ScoredFinding

end CodeAudit
