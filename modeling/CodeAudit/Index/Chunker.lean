import CodeAudit.Index.Chunk
import CodeAudit.Script.Docstring
import CodeAudit.Script.Program
import CodeAudit.Text.Case
import CodeAudit.Text.Pattern
import CodeAudit.Text.Word

/-!
# Chunks of source files

## Main definitions

* `Chunker.ofScript` — the chunks of a Python source.
* `Chunker.extract` — the chunks of a source in any language.
-/

namespace CodeAudit.Chunker

open CodeAudit.Script CodeAudit.Text

/-- A way to cut a text that has no structure. -/
abbrev Splitter := String → List String

/-- Takes a text in one piece. -/
def whole : Splitter := fun s => if s.isEmpty then [] else [s]

/-- Some of the lines of a text, counted from one. -/
def linesBetween (lines : List String) (first last : Nat) : String :=
  joinWith "\n" ((lines.take last).drop (first - 1))

/-! ## Texts without structure -/

/-- The chunks of a text that is cut without regard to its structure. -/
def ofText (split : Splitter) (file source language : String) : List Chunk :=
  (split source).zipIdx.map fun (part, i) =>
    { content := part
      kind := .generic
      file
      firstLine := .int (1 + i * 50)
      lastLine := .int (1 + (i + 1) * 50)
      name := (Path.ofString file).stem ++ "_chunk_" ++ Number.decimalInt i
      language }

/-! ## Python -/

/-- How much a construct adds to the complexity of its function. -/
def weight (n : Node) : Nat :=
  match n.shape with
  | .ifStmt | .whileLoop | .forLoop | .asyncFor | .ifExp | .exceptHandler => 1
  | .boolOp => n.children.length - 1
  | _ => 0

/-- The complexity of a function. -/
def complexity (n : Node) : Nat :=
  n.levelOrder.foldr (fun part sum => weight part + sum) 1

/-- The chunk of a function, which may be a method of a class. -/
def functionChunk (file : String) (lines : List String) (parent : Option String) (n : Node) : Chunk :=
  let last := min n.lastLine lines.length
  { content := linesBetween lines n.firstLine last
    kind := if parent.isSome then .method else .function
    file
    firstLine := .int n.firstLine
    lastLine := .int last
    name := (parent.map (· ++ "." ++ n.definedName)).getD n.definedName
    parent
    complexity := some (.float (Number.ofInt (complexity n)))
    doc := n.docstring? }

/-- The last line of the head of a class, which ends before the first method. -/
def headEnd (n : Node) : Nat :=
  ((n.body.takeWhile (!·.isFunction)).getLast?.map (·.lastLine)).getD n.firstLine

/-- The chunk of the head of a class. -/
def classChunk (file : String) (lines : List String) (n : Node) : Chunk :=
  let last := min (headEnd n) lines.length
  { content := linesBetween lines n.firstLine last
    kind := .classHead
    file
    firstLine := .int n.firstLine
    lastLine := .int last
    name := n.definedName
    doc := n.docstring? }

/-- The chunks of a definition: a function has one; a class has one for its head and one for each method. -/
def definitionChunks (file : String) (lines : List String) (n : Node) : List Chunk :=
  match n.shape with
  | .functionDef _ | .asyncFunctionDef _ => [functionChunk file lines none n]
  | .classDef name =>
    classChunk file lines n :: (n.body.filter (·.isFunction)).map (functionChunk file lines (some name))
  | _ => []

/-- The chunk of the description of a module. -/
def moduleChunk (file doc : String) : Chunk where
  content := doc
  kind := .moduleDoc
  file := file
  firstLine := .int 1
  lastLine := .int (Text.lines doc).length
  name := (Path.ofString file).stem ++ "_module_doc"
  doc := some doc

/-- The chunks of a tree: the description of the module, then the definitions level by level. -/
def ofTree (file source : String) (tree : Node) : List Chunk :=
  ((Chunk.nonempty tree.docstring?).map (moduleChunk file)).toList ++
    tree.levelOrder.flatMap (definitionChunks file (Text.lines source))

/-- **The chunks of a Python source.** A source that is no program is cut without regard to its structure. -/
def ofScript (split : Splitter) (file source : String) : List Chunk :=
  match parse source with
  | .ok tree => ofTree file source tree
  | .error _ => ofText split file source "python"

/-! ## Languages with braces -/

/-- Any number of blanks. -/
def blanks : Pattern := .many (.one isBlank)

/-- At least one blank. -/
def gap : Pattern := .some1 (.one isBlank)

/-- A word that may stand here. -/
def maybeWord (s : String) : Pattern := .optional (.seq (.word s) gap)

/-- The name of a function, which is the part that is asked for. -/
def functionName : Pattern := .part 1 (.some1 (.one fun c => isWordChar c || c == '$'))

/-- The ways in which a line can begin a function. -/
def beginnings : List Pattern :=
  [.all [blanks, .word "function", gap, functionName, blanks, .char '('],
    .all [blanks, .word "const", gap, functionName, blanks, .char '=', blanks, maybeWord "async", .char '(',
      .many (.one (· != ')')), .char ')', blanks, .word "=>"],
    .all [blanks, functionName, blanks, .char ':', blanks, maybeWord "async", .word "function"],
    .all [blanks, maybeWord "export", maybeWord "async", .word "function", gap, functionName]]

/-- The name of the function that a line begins. -/
def begunFunction? (line : String) : Option String :=
  beginnings.findSome? fun p => (p.match? (.ofText line.toList)).bind (·.part? 1)

/-- How much deeper a line ends than it begins. -/
def descent (line : String) : Int :=
  (line.toList.count '\x7b' : Int) - line.toList.count '\x7d'

/-- The number of lines up to the one in which the braces are closed again. -/
def closing? (inside : Bool) (depth : Int) : List String → Option Nat
  | [] => none
  | line :: rest =>
    let inside := inside || line.toList.contains '\x7b'
    if inside then
      let depth := depth + descent line
      if depth ≤ 0 then some 1 else (closing? inside depth rest).map (· + 1)
    else (closing? inside depth rest).map (· + 1)

/-- The last line of a function that begins behind some lines, counted from one. A function whose braces are
not closed is taken to have eighty lines. -/
def functionEnd (lines : List String) (start : Nat) : Nat :=
  match closing? false 0 (lines.drop start) with
  | some n => start + n
  | none => min (start + 80) lines.length

/-- The comment above a function, from the lines above it without blanks at their ends, nearest first. -/
def commentAbove? : List String → Option String
  | [] => none
  | line :: above =>
    if endsWith line "*/" then
      let opens (s : String) : Bool := startsWith s "/**"
      some (joinWith "\n"
        (line :: above.takeWhile (!opens ·) ++ (above.find? opens).toList).reverse)
    else if line.isEmpty || startsWith line "//" then commentAbove? above
    else none

/-- The chunk of the function that the line behind some lines begins. -/
def bracedChunk (file language : String) (lines : List String) (start : Nat) (name : String) : Chunk :=
  let last := functionEnd lines start
  { content := linesBetween lines (start + 1) last
    kind := .function
    file
    firstLine := .int (start + 1)
    lastLine := .int last
    name
    language
    doc := commentAbove? ((lines.take start).reverse.map trim) }

/-- **The chunks of a source in a language with braces.** A source without functions is cut without regard
to its structure. -/
def ofBraces (split : Splitter) (file source language : String) : List Chunk :=
  let lines := Text.lines source
  let chunks := lines.zipIdx.filterMap fun (line, i) =>
    (begunFunction? line).map (bracedChunk file language lines i)
  if chunks.isEmpty then ofText split file source language else chunks

/-! ## Any language -/

/-- **The chunks of a source** in a language, whose tag may have any case. -/
def extract (split : Splitter) (file source language : String) : List Chunk :=
  let tag := lower language
  if tag == "python" then ofScript split file source
  else if tag == "javascript" || tag == "typescript" then ofBraces split file source language
  else ofText split file source language

end CodeAudit.Chunker
