import CodeAudit.Datum.Basic
import CodeAudit.Source.Language

/-!
# Functions and modules

What the analyses know of a source file: its functions, with their place, documentation, text and
measures.

## Main definitions

* `FunctionUnit` — a function of a source file.
* `branchCount` — the name of the measure that counts branches.
-/

namespace CodeAudit

/-- A function of a source file. -/
structure FunctionUnit where
  id : String
  name : String
  lang : Language
  path : Path
  /-- The first and the last line; functions from outside may carry values of any kind. -/
  firstLine : Datum
  lastLine : Datum
  doc : Option String
  /-- The source text, if it is known. -/
  text : Option String
  /-- Measures by name; functions from outside may carry values of any kind. -/
  metrics : List (String × Datum)

/-- A source file with its functions. -/
structure ModuleUnit where
  path : Path
  lang : Language
  functions : List FunctionUnit

/-- The measure that counts the branches of a function. -/
def branchCount : String := "complexity_branch_count"

/-- A measure of a function. -/
def FunctionUnit.metric? (fn : FunctionUnit) (name : String) : Option Datum :=
  (fn.metrics.find? (·.1 == name)).map (·.2)

/-- The source text, which is empty if it is not known. -/
def FunctionUnit.source (fn : FunctionUnit) : String :=
  fn.text.getD ""

end CodeAudit
