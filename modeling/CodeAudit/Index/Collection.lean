import CodeAudit.Index.Chunk
import CodeAudit.Sequence.Sort

/-!
# Collections of documents

A collection is an ordered map from names to documents. A client knows its collection under a fixed name; a
shelf holds on to the collection that it was opened with, even when the client has dropped it.

## Main definitions

* `Collection` — put, select and remove documents.
* `Shelf.add`, `Shelf.remove`, `Shelf.update`, `Shelf.reset`, `Shelf.statistics`, `Shelf.search` — the
  operations of a shelf.
-/

namespace CodeAudit

/-- An ordered map from names to documents. -/
structure Collection where
  entries : List (String × Document)

namespace Collection

/-- The collection without documents. -/
def empty : Collection := ⟨[]⟩

/-- Sets the document of a name; a name that is already there keeps its position. -/
def putIn (id : String) (d : Document) : List (String × Document) → List (String × Document)
  | [] => [(id, d)]
  | (i, e) :: rest => if i == id then (i, d) :: rest else (i, e) :: putIn id d rest

/-- Sets the document of a name. -/
def put (c : Collection) (id : String) (d : Document) : Collection :=
  ⟨putIn id d c.entries⟩

/-- Sets the documents of several names, one after the other. -/
def putAll (c : Collection) (docs : List (String × Document)) : Collection :=
  docs.foldl (fun c (id, d) => c.put id d) c

/-- Whether the description of a document has given details. -/
def fits (wanted : List (Datum × Datum)) (d : Document) : Bool :=
  wanted.all fun (key, value) =>
    match d.metadata with
    | .dict entries => ((Datum.lookup key entries).getD .null) == value
    | _ => false

/-- The documents whose descriptions have given details. -/
def select (c : Collection) (wanted : List (Datum × Datum)) : List (String × Document) :=
  c.entries.filter fun (_, d) => fits wanted d

/-- Removes the documents of some names. -/
def remove (c : Collection) (ids : List String) : Collection :=
  ⟨c.entries.filter fun (id, _) => !ids.contains id⟩

/-- The names in a collection. -/
def ids (c : Collection) : List String :=
  c.entries.map (·.1)

/-- How far a document is from every question: the number of its characters. -/
def distance (d : Document) : Float :=
  Number.ofInt d.content.length

/-- The documents with given details, nearest first. -/
def ranked (c : Collection) (wanted : List (Datum × Datum)) : List (Document × Float) :=
  ((c.select wanted).map fun (_, d) => (d, distance d)).mergeSort fun a b => !(b.2 < a.2)

end Collection

/-- Every collection that was made, by its number, and the number of the current one. -/
structure Client where
  collections : List Collection := []
  current : Option Nat := none

/-- A client with the number of the collection that is held. -/
structure Shelf where
  client : Client
  held : Nat

namespace Client

/-- The name of the collection. -/
def collectionName : String := "cqia_code_chunks"

variable (c : Client)

/-- The collection with a number. -/
def collection (n : Nat) : Collection :=
  c.collections[n]?.getD .empty

/-- Changes the collection with a number. -/
def change (n : Nat) (f : Collection → Collection) : Client :=
  { c with collections := c.collections.modify n f }

/-- The number of the current collection. -/
def currentNumber : Except Fault Nat :=
  match c.current with
  | some n => .ok n
  | none => .error (.missingCollection collectionName)

/-- Drops the current collection. -/
def drop : Except Fault Client := do
  let _ ← c.currentNumber
  return { c with current := none }

/-- Opens a shelf with the current collection, which is made if there is none. -/
def open_ : Shelf :=
  match c.current with
  | some n => ⟨c, n⟩
  | none => ⟨⟨c.collections ++ [.empty], some c.collections.length⟩, c.collections.length⟩

/-- The names in the current collection. -/
def currentIds : List String :=
  (c.current.map fun n => (c.collection n).ids).getD []

end Client

namespace Shelf

/-- The name of a document by its number. -/
def idOf (n : Nat) : String :=
  "doc_" ++ Number.decimalInt n

/-- Documents with their names, from a number on. -/
def numbered (start : Nat) (docs : List Document) : List (String × Document) :=
  docs.zipIdx.map fun (d, j) => (idOf (start + j), d)

variable (s : Shelf)

/-- Adds the documents of one batch to the collection that is held. -/
def addBatch (batch : List (String × Document)) : Shelf :=
  { s with client := s.client.change s.held (·.putAll batch) }

/-- The documents in batches of a given size, with their names. -/
def batches (size : Nat) (docs : List Document) : List (List (String × Document)) :=
  (List.range ((docs.length + size - 1) / size)).map fun b =>
    numbered (b * size) ((docs.drop (b * size)).take size)

/-- **Adds documents**, batch by batch, and tells their names, which count from zero. A negative size of a
batch adds nothing. -/
def add (docs : List Document) (size : Datum := .int 100) : Except Fault (List String × Shelf) := do
  let size ← size.toIndex
  if size = 0 then throw .zeroStep
  if size < 0 then return ([], s)
  let all := batches size.toNat docs
  return (all.flatten.map (·.1), all.foldl addBatch s)

/-- Removes the documents of a file from the current collection, which is held from then on, and tells how
many they were. -/
def remove (file : Datum) : Nat × Shelf :=
  match s.client.current with
  | none => (0, s)
  | some n =>
    let ids := ((s.client.collection n).select [(.text "file_path", file)]).map (·.1)
    if ids.isEmpty then (0, s) else (ids.length, (s.client.change n (·.remove ids)).open_)

/-- Puts documents in the place of those of a file. -/
def update (docs : List Document) (file : Datum) : Except Fault (List String × Shelf) :=
  (s.remove file).2.add docs

/-- Puts an empty collection in the place of the current one, if there is one. -/
def reset : Bool × Shelf :=
  match s.client.drop with
  | .ok client => (true, client.open_)
  | .error _ => (false, s)

/-! ## Statistics -/

/-- A detail of a document that is told among others, so it must be able to be a key. A document without it counts
as unknown. -/
def toldDetail (d : Document) (key : String) : Except Fault Datum := do
  let v ← d.detail key (.text "unknown")
  match v.unhashableKind? with
  | some kind => throw (.unhashable kind)
  | none => return v

/-- The language, the kind and the file of a document. -/
def toldDetails (d : Document) : Except Fault (Datum × Datum × Datum) := do
  return (← toldDetail d "language", ← toldDetail d "chunk_type", ← toldDetail d "file_name")

/-- Texts in order; other values are left as they are. -/
def sorted (values : List Datum) : List Datum :=
  values.mergeSort fun a b => !(Datum.compareText b.str a.str == .lt)

/-- What is told of a collection. Its first hundred documents tell which languages, kinds and files it has;
languages and kinds must be comparable. -/
def describe (c : Collection) : Except Fault (List (String × Datum)) := do
  let total := ("total_documents", Datum.int c.entries.length)
  if c.entries.isEmpty then return [total]
  let docs := ((c.entries.take 100).map (·.2)).filter fun d => d.metadata.truthy
  let told ← docs.mapM toldDetails
  let languages ← Sequence.sortM Datum.less (told.map (·.1)).eraseDups
  let kinds ← Sequence.sortM Datum.less (told.map (·.2.1)).eraseDups
  let files := (told.map (·.2.2)).eraseDups
  return [total, ("languages", .list languages), ("chunk_types", .list kinds),
    ("unique_files", .int files.length), ("sample_files", .list ((sorted files).take 10))]

/-- **The statistics of the current collection**, or why there are none. -/
def statistics : List (String × Datum) :=
  match s.client.currentNumber.bind fun n => describe (s.client.collection n) with
  | .ok entries => entries
  | .error e => [("error", .text e.message)]

/-! ## Search -/

/-- **The nearest documents** of the collection that is held, with their distances. -/
def search (count : Datum := .int 5) (wanted : Datum := .null) :
    Except Fault (List (Document × Float)) := do
  let wanted := match wanted with
    | .dict entries => entries
    | _ => []
  Datum.firstOf ((s.client.collection s.held).ranked wanted) count

/-- How a shelf is asked by others. -/
def retriever (count threshold wanted : Datum) : Datum :=
  .object [("search_type", .text "similarity_score_threshold"),
    ("search_kwargs", .object ([("k", count), ("score_threshold", threshold)] ++
      (if wanted.truthy then [("filter", wanted)] else [])))]

end Shelf

end CodeAudit
