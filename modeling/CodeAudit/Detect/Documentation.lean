import CodeAudit.Datum.Basic
import CodeAudit.Files.Path
import CodeAudit.Script.Docstring
import CodeAudit.Script.Program

/-!
# Missing documentation

## Main definitions

* `DocumentationFinding` — a module, class or function without documentation.
* `Documentation.detect` — the findings on a Python source, the module first, then level by level.
-/

namespace CodeAudit

/-- A module, class or function without documentation. -/
structure DocumentationFinding where
  id : String
  message : String
  file : String
  firstLine : Nat
  lastLine : Nat
  kind : String

/-- The attributes of a finding. -/
def DocumentationFinding.toRecord (f : DocumentationFinding) : Datum :=
  .record [("id", .text f.id), ("category", .text "documentation"), ("message", .text f.message),
    ("file", .text f.file), ("start_line", .int f.firstLine), ("end_line", .int f.lastLine),
    ("kind", .text f.kind)]

namespace Documentation

open CodeAudit.Script

/-- The finding on a module. -/
def moduleFinding (file : String) : DocumentationFinding where
  id := file ++ "::doc:module"
  message := "Missing module docstring"
  file := file
  firstLine := 1
  lastLine := 1
  kind := "module"

/-- The finding on a definition: `kind` is its kind and `title` the kind as it is written in messages. -/
def definitionFinding (file kind title : String) (n : Node) : DocumentationFinding where
  id := file ++ "::doc:" ++ kind ++ ":" ++ n.definedName ++ ":" ++ Number.decimalInt n.firstLine
  message := "Missing " ++ title ++ " docstring: " ++ n.definedName
  file := file
  firstLine := n.firstLine
  lastLine := n.lastLine
  kind := kind

/-- The finding on a node, if it is a definition without documentation. -/
def inspect? (file : String) (n : Node) : Option DocumentationFinding :=
  if n.isDocumented then none
  else match n.shape with
    | .classDef _ => some (definitionFinding file "class" "class" n)
    | .functionDef _ | .asyncFunctionDef _ =>
      some (definitionFinding file "function" "function/method" n)
    | _ => none

/-- The findings on a tree. -/
def detectTree (file : String) (tree : Node) : List DocumentationFinding :=
  (if tree.isDocumented then [] else [moduleFinding file]) ++ tree.levelOrder.filterMap (inspect? file)

/-- **The findings on a Python source**; a text that is no program has none. -/
def detect (path : Path) (source : String) : List DocumentationFinding :=
  match parse source with
  | .ok tree => detectTree path.toString tree
  | .error _ => []

end Documentation

end CodeAudit
