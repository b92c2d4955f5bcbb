import CodeAudit.Index.Chunker
import CodeAudit.Index.Collection
import CodeAudit.Source.Scan

/-!
# Indexing of files

## Main definitions

* `Indexing.Report` — what came of indexing some files.
* `Indexing.runWith` — reads files, cuts them in a given way and stores their documents.
-/

namespace CodeAudit.Indexing

/-- A file that is to be indexed. -/
structure Item where
  file : String
  language : Datum

/-- A listed file that is to be indexed. -/
def Item.ofInfo (info : FileInfo) : Item :=
  ⟨info.path.toString, .text info.language.tag⟩

/-- What came of indexing some files. -/
structure Report where
  total : Nat := 0
  successful : Nat := 0
  failed : Nat := 0
  chunks : Nat := 0
  errors : List String := []

/-- A way to cut a file into documents, given its name, its text and its language. -/
abbrev Cutter := String → String → Datum → Except Fault (List Document)

/-- Cuts a file into the documents of its chunks. Only a text can name a language. -/
def intoChunks (split : Chunker.Splitter) : Cutter := fun file source language =>
  match language with
  | .text language => Chunk.toDocuments (Chunker.extract split file source language)
  | d => throw (.noAttribute d.kind "lower")

/-- The documents of a file. -/
def documentsOf (fs : Files) (cut : Cutter) (item : Item) : Except Fault (List Document) := do
  let source ← fs.readText (.ofString item.file)
  cut item.file source item.language

/-- Indexes one file: its documents take the place of those that were stored for it. A file without
documents changes nothing, and one that fails is reported. -/
def step (fs : Files) (cut : Cutter) (acc : Report × Shelf) (item : Item) : Report × Shelf :=
  let (report, shelf) := acc
  let outcome : Except Fault (Report × Shelf) := do
    let docs ← documentsOf fs cut item
    if docs.isEmpty then return ({ report with total := report.total + 1 }, shelf)
    let (ids, shelf) ← shelf.update docs (.text item.file)
    return ({ report with
      chunks := report.chunks + ids.length
      successful := report.successful + 1
      total := report.total + 1 }, shelf)
  match outcome with
  | .ok result => result
  | .error e =>
    ({ report with
      failed := report.failed + 1
      errors := report.errors ++ [item.file ++ ": " ++ e.message] }, shelf)

/-- **Indexes files one after the other**, cut in a given way. -/
def runWith (fs : Files) (cut : Cutter) (shelf : Shelf) (items : List Item) : Report × Shelf :=
  items.foldl (step fs cut) ({}, shelf)

/-- Indexes files one after the other, cut into chunks. -/
def run (fs : Files) (split : Chunker.Splitter) (shelf : Shelf) (items : List Item) : Report × Shelf :=
  runWith fs (intoChunks split) shelf items

/-- A report as a value. -/
def Report.toDatum (r : Report) : Datum :=
  .object [("total_files", .int r.total), ("successful_files", .int r.successful),
    ("failed_files", .int r.failed), ("total_chunks", .int r.chunks),
    ("errors", .list (r.errors.map .text))]

end CodeAudit.Indexing
