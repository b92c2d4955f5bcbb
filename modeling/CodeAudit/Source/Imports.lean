import CodeAudit.Datum.Basic
import CodeAudit.Files.Tree
import CodeAudit.Script.Program
import CodeAudit.Sequence
import CodeAudit.Source.Language
import CodeAudit.Text.Blank
import CodeAudit.Text.Pattern
import CodeAudit.Text.Word

/-!
# Imports of source files

An import is named by the list of the segments of its dotted or slashed name, written as text. In a
JavaScript file a relative one is named by its first proper segment alone.

## Main definitions

* `Imports.ofScript` — the imports of a Python source.
* `Imports.read` — the imports of a file, each once and in the order of their texts.
-/

namespace CodeAudit.Imports

open CodeAudit.Text

/-- A list of segments as text. -/
def segmentsText (segments : List String) : String :=
  (Datum.list (segments.map Datum.text)).shown

/-- The imports that a node of a Python source makes. -/
def ofNode (n : Script.Node) : List String :=
  match n.shape with
  | .importStmt =>
    n.children.filterMap fun child =>
      match child.shape with
      | .alias name => some (segmentsText (splitOn '.' name))
      | _ => none
  | .importFrom (some source) _ => if source.isEmpty then [] else [segmentsText (splitOn '.' source)]
  | _ => []

/-- The imports of a Python source; a text that is no program has none. -/
def ofScript (source : String) : List String :=
  match Script.parse source with
  | .ok tree => tree.levelOrder.flatMap ofNode
  | .error _ => []

/-! ## Import statements of JavaScript -/

/-- One blank. -/
def blank : Pattern :=
  .one isBlank

/-- A quotation mark of either kind. -/
def isQuote (c : Char) : Bool :=
  c == '\'' || c == '"'

/-- A quoted name, which is the part that is asked for. -/
def quotedName : Pattern :=
  .all [.one isQuote, .part 0 (.some1 (.one (!isQuote ·))), .one isQuote, .optional (.char ';')]

/-- What may stand between the keywords of an import statement. -/
def inClause (c : Char) : Bool :=
  isWordChar c || isBlank c || c ∈ ['\x7b', '\x7d', '*', ',']

/-- The start of an import statement, which begins a line. -/
def importStart : Pattern :=
  .all [.lineStart, .many blank, .word "import", .some1 blank]

/-- An import statement with a clause, or one with a name only. -/
def importStatement : Pattern :=
  .alt
    (.all [importStart, .some1 (.one inClause), .some1 blank, .word "from", .some1 blank, quotedName])
    (.all [importStart, quotedName])

/-- A character that separates the segments of a relative name. -/
def isSeparator (c : Char) : Bool :=
  c == '/' || c == '\\'

/-- The segments of a relative name. -/
def relativeSegments (name : List Char) : List String :=
  splitOn '/' (String.ofList (name.map fun c => if isSeparator c then '/' else c))

/-- How an import of a name is called, if it is called at all. -/
def statementTarget? (name : String) : Option String :=
  if name.isEmpty then none
  else if startsWith name "." then
    (relativeSegments name.toList).find? fun s => !s.isEmpty && s != "." && s != ".."
  else some (segmentsText (splitOn '/' name))

/-- The imports of a JavaScript or TypeScript source. -/
def ofStatements (source : String) : List String :=
  (importStatement.matchAll source).filterMap fun c => statementTarget? (trim ((c.part? 0).getD ""))

/-- The imports of a source text in a language. -/
def ofText (lang : Language) (source : String) : List String :=
  match lang with
  | .python => ofScript source
  | .javascript | .typescript => ofStatements source
  | _ => []

/-- Texts in order, each once. -/
def ordered (names : List String) : List String :=
  Sequence.sorted (fun a b => !(b < a)) names.eraseDups

/-- **The imports of a file**, each once and in the order of their texts. A file that cannot be read has
none. -/
def read (fs : Files) (root path : Path) (lang : Language) : List String :=
  match fs.readText (root.join path) with
  | .ok source => ordered (ofText lang source)
  | .error _ => []

end CodeAudit.Imports
