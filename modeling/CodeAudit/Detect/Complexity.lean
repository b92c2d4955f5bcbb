import CodeAudit.Datum.Arithmetic
import CodeAudit.Source.Unit

/-!
# Complex functions

The complexity of a function is one more than the number of its branches.

## Main definitions

* `ComplexityFinding` — a function whose complexity reaches a threshold.
* `Complexity.detect` — the findings on a list of functions.
-/

namespace CodeAudit

/-- A function whose complexity reaches a threshold. -/
structure ComplexityFinding where
  id : String
  message : String
  file : String
  firstLine : Datum
  lastLine : Datum
  value : Int
  threshold : Float

/-- The attributes of a finding. -/
def ComplexityFinding.toRecord (f : ComplexityFinding) : Datum :=
  .record [("id", .text f.id), ("category", .text "complexity"), ("message", .text f.message),
    ("file", .text f.file), ("start_line", f.firstLine), ("end_line", f.lastLine), ("value", .int f.value),
    ("threshold", .float f.threshold)]

namespace Complexity

/-- The complexity of a function: the number of its branches, and one. -/
def complexity (fn : FunctionUnit) : Except Fault Int :=
  (((fn.metric? branchCount).getD (.int 0)).toInt).map (1 + ·)

/-- The finding on a function, if its complexity reaches the threshold. -/
def inspect (threshold : Datum) (fn : FunctionUnit) : Except Fault (Option ComplexityFinding) := do
  let value ← complexity fn
  if ← Datum.ordered .ge (.int value) threshold then
    return some {
      id := fn.id ++ "#complexity"
      message := "High cyclomatic complexity: " ++ Number.decimalInt value ++ " (≥ " ++ threshold.str ++ ")"
      file := fn.path.toString
      firstLine := fn.firstLine
      lastLine := fn.lastLine
      value := value
      threshold := ← threshold.toFloat }
  else return none

/-- **The findings on a list of functions.** -/
def detect (threshold : Datum) (functions : List FunctionUnit) : Except Fault (List ComplexityFinding) :=
  (functions.mapM (inspect threshold)).map (List.filterMap id)

end Complexity

end CodeAudit
