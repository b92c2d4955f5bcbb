import CodeAudit.Datum.Arithmetic
import CodeAudit.Files.Path

/-!
# Chunks and documents

A chunk is a part of a source file that can be looked up: a function, a class, a method, the description of
a module, or just some text. A document is a chunk as it is stored.

## Main definitions

* `Chunk`, `ChunkKind` — the chunks.
* `Chunk.toDocument` — the document of a chunk.
-/

namespace CodeAudit

/-- The kinds of chunks, or the tag of one that has no rules of its own. -/
inductive ChunkKind
  | moduleDoc
  | function
  | method
  | classHead
  | generic
  | other (tag : String)
deriving DecidableEq

namespace ChunkKind

/-- The tag that stands for a kind. -/
def tag : ChunkKind → String
  | moduleDoc => "module_docstring"
  | function => "function"
  | method => "method"
  | classHead => "class"
  | generic => "generic"
  | other t => t

/-- The kind of a tag. -/
def ofTag (t : String) : ChunkKind :=
  ([moduleDoc, function, method, classHead, generic].find? (·.tag == t)).getD (other t)

end ChunkKind

/-- A part of a source file. -/
structure Chunk where
  content : String
  kind : ChunkKind
  file : String
  firstLine : Datum
  lastLine : Datum
  name : String
  /-- The class of a method. -/
  parent : Option String := none
  language : String := "python"
  complexity : Option Datum := none
  doc : Option String := none

/-- A text with a description. -/
structure Document where
  content : String
  /-- The description, a dictionary or nothing. -/
  metadata : Datum

namespace Document

/-- A detail of the description, with a default; nothing and everything false counts as an empty
description. -/
def detail (d : Document) (key : String) (default : Datum) : Except Fault Datum := do
  return (Datum.lookup (.text key) (← (d.metadata.orElse (.dict [])).entriesAs "get")).getD default

end Document

namespace Chunk

/-- A text that is there and not empty. -/
def nonempty (s : Option String) : Option String :=
  s.filter (!·.isEmpty)

/-- The text of a chunk as it is stored: a description goes before the code. -/
def storedText (c : Chunk) : String :=
  match nonempty c.doc with
  | some doc =>
    if c.kind = .moduleDoc then c.content else "# Docstring:\n" ++ doc ++ "\n\n# Code:\n" ++ c.content
  | none => c.content

/-- **The document of a chunk.** -/
def toDocument (c : Chunk) : Except Fault Document := do
  let path := Path.ofString c.file
  let complexity ← c.complexity.mapM Datum.toFloat
  return {
    content := c.storedText
    metadata := .object
      ([("file_path", .text c.file), ("chunk_type", .text c.kind.tag), ("start_line", c.firstLine),
        ("end_line", c.lastLine), ("name", .text c.name), ("language", .text c.language),
        ("file_name", .text path.name), ("file_stem", .text path.stem)] ++
        ((nonempty c.parent).map fun s => ("parent_name", Datum.text s)).toList ++
        (complexity.map fun x => ("complexity_score", Datum.float x)).toList ++
        ((nonempty c.doc).map fun s => ("docstring", Datum.text s)).toList) }

/-- The documents of chunks. -/
def toDocuments (chunks : List Chunk) : Except Fault (List Document) :=
  chunks.mapM toDocument

end Chunk

end CodeAudit
