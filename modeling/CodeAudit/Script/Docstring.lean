import CodeAudit.Script.Tree
import CodeAudit.Text.Blank
import CodeAudit.Text.Split

/-!
# Documentation strings

A definition or a module is documented by a text constant that is its first statement. The text is cleaned
of the indentation that its place in the source gave it.

## Main definitions

* `cleanDoc` — a text without common indentation and without empty lines at its ends.
* `Node.docstring?` — the documentation of a definition or module.
-/

namespace CodeAudit.Script

open CodeAudit.Text

/-- The indentation of a line, unless the line is blank. -/
def indentOf? (line : List Char) : Option Nat :=
  let content := line.dropWhile isBlank
  if content.isEmpty then none else some (line.length - content.length)

/-- The least indentation of the lines that are not blank. -/
def commonIndent? (lines : List (List Char)) : Option Nat :=
  (lines.filterMap indentOf?).min?

/-- Lines without the empty ones at both ends. -/
def trimEmptyLines (lines : List (List Char)) : List (List Char) :=
  ((lines.dropWhile List.isEmpty).reverse.dropWhile List.isEmpty).reverse

/-- **Cleaned documentation**: tabs are expanded, the first line loses its leading blanks, the others
their common indentation, and empty lines at both ends go. -/
def cleanDoc (s : String) : String :=
  match pieces '\n' (expandTabs s.toList) with
  | [] => ""
  | first :: others =>
    let margin := (commonIndent? others).getD 0
    let lines := first.dropWhile isBlank :: others.map (·.drop margin)
    String.intercalate "\n" ((trimEmptyLines lines).map String.ofList)

/-- The text of an expression statement that is a text constant. -/
def Node.textConstant? (n : Node) : Option String :=
  match n with
  | .mk _ .expression _ [.mk _ (.constant (.text s)) _ _] => some s
  | _ => none

/-- **The documentation of a definition or module**, cleaned. -/
def Node.docstring? (n : Node) : Option String :=
  match n.body with
  | first :: _ => first.textConstant?.map cleanDoc
  | [] => none

/-- Whether a definition or module has documentation that is not empty. -/
def Node.isDocumented (n : Node) : Bool :=
  match n.docstring? with
  | some doc => !doc.isEmpty
  | none => false

end CodeAudit.Script
