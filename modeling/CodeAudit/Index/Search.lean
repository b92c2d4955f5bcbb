import CodeAudit.Index.Collection
import CodeAudit.Text.Case
import CodeAudit.Text.Pattern

/-!
# Search by names

The documents that a store finds are ranked anew: those whose name or file is mentioned in the question gain.

## Main definitions

* `Search.identifiers` — the names that a question mentions.
* `Search.run` — a search in a shelf.
-/

namespace CodeAudit.Search

open CodeAudit.Text

/-- A mark around a name: a backslash and the letter b. -/
def mark : Pattern := .word "\\b"

/-- A letter of the first rows, or an underscore. -/
def isNameStart (c : Char) : Bool :=
  c.isAlpha || c == '_'

/-- A name between marks. -/
def markedName : Pattern :=
  .all [mark, .part 1 (.seq (.one isNameStart) (.many (.one fun c => isNameStart c || c.isDigit))), mark]

/-- The text of a question in small letters; nothing counts as the empty question. -/
def lowered (question : Datum) : Except Fault String :=
  match question.orElse (.text "") with
  | .text s => .ok (lower s)
  | d => .error (.noAttribute d.kind "lower")

/-- **The names that a question mentions**, with the marks around them. -/
def identifiers (question : Datum) : Except Fault (List String) := do
  let found := markedName.matchAll (← lowered question)
  return (found.filterMap (·.part? 1)).map ("\\b" ++ · ++ "\\b")

/-- How a search is run. -/
structure Settings where
  /-- The number of documents. -/
  count : Datum := .int 5
  /-- What a mention of the name adds to the score; one of the file adds half of it. -/
  boost : Datum := .float 0.3

/-- A detail of a document in small letters. -/
def loweredDetail (d : Document) (key : String) : Except Fault String := do
  match ← d.detail key (.text "") with
  | .text s => return lower s
  | v => throw (.noAttribute v.kind "lower")

/-- The score of a document after one name is looked for in its own name and its file. -/
def adjustBy (boost : Datum) (name file : String) (score : Float) (identifier : String) : Except Fault Float := do
  let score ← if contains name identifier then boost.toFloat.map (score + ·) else .ok score
  if contains file identifier then boost.toFloat.map fun b => score + b * 0.5 else .ok score

/-- The score of a document after all names are looked for. -/
def adjusted (boost : Datum) (identifiers : List String) (d : Document) (score : Datum) : Except Fault Float := do
  let score ← score.toFloat
  let name ← loweredDetail d "name"
  let file ← loweredDetail d "file_name"
  identifiers.foldlM (adjustBy boost name file) score

/-- **Documents ranked by score and mention**, greatest first. -/
def rank (settings : Settings) (question : Datum) (found : List (Document × Datum)) :
    Except Fault (List Document) := do
  let names ← identifiers question
  let scored ← found.mapM fun (d, score) => do return (d, ← adjusted settings.boost names d score)
  let ordered := scored.mergeSort fun a b => !(a.2 < b.2)
  Datum.firstOf (ordered.map (·.1)) settings.count

/-- The number of documents for which the store is asked: twice as many as are wanted. -/
def asked (settings : Settings) : Except Fault Datum :=
  settings.count.mul (.int 2)

/-- **A search in a shelf.** -/
def run (shelf : Shelf) (settings : Settings) (question : Datum) : Except Fault (List Document) := do
  let found ← shelf.search (← asked settings)
  rank settings question (found.map fun (d, x) => (d, .float x))

end CodeAudit.Search
