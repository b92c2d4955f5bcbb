import CodeAudit.Detect.Fingerprint
import CodeAudit.Source.Unit

/-!
# Duplicated functions

Functions of different files are compared pair by pair by their fingerprints.

## Main definitions

* `DuplicateFinding` — two functions that are nearly equal.
* `Duplication.detect` — the findings, in the order of the pairs.
-/

namespace CodeAudit

/-- Two functions that are nearly equal. -/
structure DuplicateFinding where
  id : String
  message : String
  files : String × String
  lines : (Int × Int) × (Int × Int)
  similarity : Float

namespace DuplicateFinding

/-- A pair of numbers as a value. -/
def pairDatum (p : Int × Int) : Datum :=
  .tuple [.int p.1, .int p.2]

/-- The attributes of a finding. -/
def toRecord (f : DuplicateFinding) : Datum :=
  .record [("id", .text f.id), ("category", .text "duplication"), ("message", .text f.message),
    ("files", .tuple [.text f.files.1, .text f.files.2]),
    ("lines", .tuple [pairDatum f.lines.1, pairDatum f.lines.2]), ("similarity", .float f.similarity)]

end DuplicateFinding

namespace Duplication

/-- What a comparison depends on. Settings may come from outside and have any kind. -/
structure Settings where
  /-- The length of the rows that are compared. -/
  rowLength : Datum := .int 7
  /-- The least similarity that is reported. -/
  threshold : Datum := .float 0.9
  /-- At most so many functions are compared. -/
  maxFunctions : Datum := .int 400
  /-- Functions with a longer text are left out. -/
  maxLength : Datum := .int 2000
  /-- The time that may be spent, in seconds. -/
  timeBudget : Datum := .float 8

/-- The functions that are compared: those that are not too long, up to the greatest number. `count` is
the number of functions admitted before. -/
def admittedFrom (s : Settings) (count : Nat) : List FunctionUnit → Except Fault (List FunctionUnit)
  | [] => .ok []
  | fn :: rest => do
    let fits ← Datum.ordered .le (.int fn.source.length) s.maxLength
    let count := if fits then count + 1 else count
    let full ← Datum.ordered .ge (.int count) s.maxFunctions
    let others ← if full then .ok [] else admittedFrom s count rest
    return if fits then fn :: others else others

/-- The functions that are compared. -/
def admitted (s : Settings) (functions : List FunctionUnit) : Except Fault (List FunctionUnit) :=
  admittedFrom s 0 functions

/-- The lines of a function for a report: the first is at least one, and the last is not before the
given first. -/
def reportedLines (fn : FunctionUnit) : Except Fault (Int × Int) := do
  let first ← fn.firstLine.toInt
  let last ← fn.lastLine.toInt
  return (if first > 0 then first else 1, if last ≥ first then last else first)

/-- A function with its fingerprint. -/
abbrev Printed := FunctionUnit × List (List String)

/-- The finding on two functions, if they are nearly equal. -/
def compare (s : Settings) (a b : Printed) : Except Fault (Option DuplicateFinding) := do
  if a.1.lang ≠ b.1.lang || b.2.isEmpty then return none
  let similarity := Fingerprint.jaccard a.2 b.2
  let near ← Datum.ordered .ge (.float similarity) s.threshold
  if !near || a.1.path.toString == b.1.path.toString then return none
  let first ← reportedLines a.1
  let second ← reportedLines b.1
  return some {
    id := a.1.id ++ "~" ++ b.1.id ++ "#dup"
    message := "Near-duplicate functions (Jaccard " ++ Number.fixed 2 similarity ++ ")"
    files := (a.1.path.toString, b.1.path.toString)
    lines := (first, second)
    similarity := similarity }

/-- The findings on each pair of functions, where the first of a pair comes first. Nothing is compared
when no time is left at the start. -/
def comparePairs (s : Settings) : List Printed → Except Fault (List DuplicateFinding)
  | [] => .ok []
  | a :: rest => do
    if ← Datum.ordered .gt (.float 0) s.timeBudget then return []
    let found ← if a.2.isEmpty then .ok [] else rest.mapM (compare s a)
    let others ← comparePairs s rest
    return found.filterMap id ++ others

/-- **The findings on a list of functions.** -/
def detect (s : Settings) (functions : List FunctionUnit) : Except Fault (List DuplicateFinding) := do
  let compared ← admitted s functions
  let printed ← compared.mapM fun fn => do
    return (fn, ← Fingerprint.shingles (Fingerprint.normalize fn.source) s.rowLength)
  comparePairs s printed

end Duplication

end CodeAudit
