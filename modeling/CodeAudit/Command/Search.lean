import CodeAudit.Command.Audit
import CodeAudit.Question.Artifacts
import CodeAudit.Question.Prompt
import CodeAudit.Question.Rationale

/-!
# The commands that index, search and answer

## Main definitions

* `Command.index` — stores the pieces of a repository.
* `Command.chat` — asks a question about the pieces below a path.
-/

namespace CodeAudit.Command

/-! ## Store -/

/-- **Stores the pieces of a repository.** -/
def index (args : Arguments) : Action Unit := do
  let root ← existingPath args "path"
  Action.rule "[bold]Preparing files for indexing"
  let infos ← filesWithin (scopeOf args root (.int Analysis.usualMaxBytes))
  let dir ← pathOf args "persist_dir"
  let shelf ← Action.shelf dir
  let (wasReset, shelf) := if (args.value "reset").truthy then shelf.reset else (false, shelf)
  if wasReset then Action.print "[yellow]Reset vector collection[/]"
  Action.rule "[bold]Indexing repository into Chroma"
  let items := infos.map Indexing.Item.ofInfo
  let (report, shelf) := Indexing.run (← get).files (← read).split shelf items
  Action.keep dir shelf
  Action.print ("[green]Indexed files: " ++ toString report.successful ++ "/" ++ toString report.total ++ "[/]")
  Action.print ("[green]Total chunks stored: " ++ toString report.chunks ++ "[/]")
  if report.failed > 0 then Action.print ("[yellow]Failed files: " ++ toString report.failed ++ "[/]")
  Action.print ("[blue]Collection stats: " ++ (Datum.object shelf.statistics).shown ++ "[/]")

/-! ## Search -/

/-- How a search is run, by the arguments. -/
def searchSettings (args : Arguments) : Search.Settings :=
  { count := args.value "k", boost := args.value "name_boost" }

/-- The lines of a document. -/
def linesOf (d : Document) : Except Fault String := do
  let first ← (← d.detail "start_line" (.int 1)).toInt
  let last ← (← d.detail "end_line" (.int 1)).toInt
  return Number.decimalInt first ++ "-" ++ Number.decimalInt last

/-- A row on a found document. -/
def matchRow (d : Document) : Except Fault (List String) := do
  let file ← d.detail "file_path" (.text "")
  let name ← d.detail "name" (.text "")
  let kind ← d.detail "chunk_type" (.text "")
  return [file.str, name.str, kind.str, ← linesOf d]

/-- Shows found documents. -/
def showMatches (title : String) (docs : List Document) : Action Unit := do
  let rows ← Action.ofResult (docs.mapM matchRow)
  Action.display (.table title ["File", "Name", "Type", "Lines"] rows)

/-- **Searches the store.** -/
def query (args : Arguments) : Action Unit := do
  let dir ← pathOf args "persist_dir"
  let docs ← Action.search dir (searchSettings args) (args.value "query")
  showMatches "RAG Results" docs

/-! ## Questions -/

/-- A path as a text from the root, with slashes for backslashes. -/
def resolvedText (fs : Files) (p : Path) : Except Fault String := do
  let place ← fs.resolve p
  return String.ofList ((Files.pathOf place).toString.toList.map fun c => if c == '\\' then '/' else c)

/-- Whether the file of a document lies within a scope, by the texts of their paths. -/
def isScoped (fs : Files) (scope : String) (d : Document) : Except Fault Bool := do
  match ← d.detail "file_path" (.text "") with
  | .text s => if s.isEmpty then return false else return Text.startsWith (← resolvedText fs (.ofString s)) scope
  | v => if v.truthy then throw (.notPath v.kind) else return false

/-- **The documents within a scope.** -/
def withinScope (fs : Files) (scope : Path) (docs : List Document) : Except Fault (List Document) := do
  let text ← resolvedText fs scope
  docs.filterM (isScoped fs text)

/-- A document with at most a given number of characters. -/
def trimmedTo (limit : Nat) (d : Document) : Document :=
  { d with content := String.ofList (d.content.toList.take limit) }

/-- A document with a heading. -/
def headed (d : Document) : Except Fault String := do
  let file ← d.detail "file_path" (.text "")
  let lines ← linesOf d
  let name ← d.detail "name" (← d.detail "chunk_type" (.text ""))
  return "# " ++ file.str ++ ":" ++ lines ++ " :: " ++ name.str ++ "\n" ++ d.content

/-- The greatest number of characters of a question with all that goes with it. -/
def promptLimit : Nat := 12000

/-- Documents that are short enough to go with a question; `others` is the length of all else. -/
def fitted (docs : List Document) (others : Nat) : Except Fault (List Document) := do
  let short := docs.map (trimmedTo 1500)
  let text := Text.joinWith "\n\n---\n\n" (← short.mapM headed)
  return if text.length + others > promptLimit then short.map (trimmedTo 800) else short

/-- **Asks a question about the pieces below a path.** -/
def chat (args : Arguments) : Action Unit := do
  let scope ← existingPath args "analyze_path"
  let dir ← pathOf args "persist_dir"
  let question := args.value "question"
  let found ← Action.search dir (searchSettings args) question
  let docs := (← Action.reading fun fs => withinScope fs scope found).take 3
  if docs.isEmpty then
    Action.print
      "[yellow]No scoped matches found in the provided path. Consider re-indexing that path or relaxing the query.[/]"
  else
    let rationale ← Question.rationale (scopeOf args scope (args.value "max_bytes"))
    let findings ← Action.reading fun fs => Artifacts.findings fs scope 8000
    let asked ← Action.ofResult question.length
    let fitting ← Action.ofResult (fitted docs (findings.length + asked + rationale.length))
    let answer ← Action.ofResult (Question.prompt question.str fitting rationale findings)
    showMatches "Retrieved Matches (Scoped)" docs
    Action.rule "[bold]Answer"
    Action.print answer

end CodeAudit.Command
