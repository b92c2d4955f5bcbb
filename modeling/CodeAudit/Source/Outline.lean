import CodeAudit.Script.Docstring
import CodeAudit.Script.Program
import CodeAudit.Script.Segment
import CodeAudit.Source.Unit

/-!
# Functions of a Python source

## Main definitions

* `isBranch` — the constructs that count as branches.
* `outline` — the functions of a source text, outer ones first.
-/

namespace CodeAudit.Source

open CodeAudit.Script

/-- A construct that counts as a branch: a condition, a loop, a context, a try statement and each of its
handlers, and each group of logical operators. -/
def isBranch (n : Node) : Bool :=
  match n.shape with
  | .ifStmt | .forLoop | .whileLoop | .tryStmt | .withStmt | .boolOp | .ifExp | .exceptHandler => true
  | _ => false

/-- The number of branches in a tree. -/
def branches (n : Node) : Nat :=
  n.levelOrder.countP isBranch

/-- The function that a node defines. -/
def functionUnit (path : Path) (lines : List (List Char)) (n : Node) : FunctionUnit where
  id := path.toString ++ "::" ++ n.definedName ++ ":" ++ Number.decimalInt n.firstLine
  name := n.definedName
  lang := .python
  path := path
  firstLine := .int n.firstLine
  lastLine := .int n.lastLine
  doc := n.docstring?
  text := some (segment lines n.extent)
  metrics := [(branchCount, .float (Number.ofInt (branches n)))]

/-- The functions of a tree, level by level. -/
def functionsOf (path : Path) (source : String) (tree : Node) : List FunctionUnit :=
  (tree.levelOrder.filter Node.isFunction).map (functionUnit path (Text.physicalLines source))

/-- **The functions of a source text**, or the fault that makes it no program. -/
def outline (path : Path) (source : String) : Except SyntaxFault ModuleUnit :=
  (parse source).map fun tree => ⟨path, .python, functionsOf path source tree⟩

end CodeAudit.Source
