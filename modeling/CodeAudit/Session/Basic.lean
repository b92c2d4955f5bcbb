import CodeAudit.Audit
import CodeAudit.Index.Repository
import CodeAudit.Index.Search

/-!
# Sessions

What the program does leaves traces: changed files and stores, lines and tables on the console, programs
started and requests sent. A session holds them all, and an action is a step that may change a session, may
look at its surroundings, and may stop.

## Main definitions

* `Surroundings` — what others do for the program.
* `Action` — the actions, with `Action.files`, `Action.print`, `Action.shelf` and others as their building blocks.
-/

namespace CodeAudit

/-- Why an action stops. -/
inductive Stop
  | fault (f : Fault)
  /-- The program ends with a code. -/
  | exit (code : Nat)
  /-- A page ends before its last line. -/
  | halt

/-- What is shown. -/
inductive Display
  /-- A line across the console with a heading. -/
  | rule (text : String)
  | line (text : String)
  | table (title : String) (headers : List String) (rows : List (List String))
  /-- An element of a page, by its name and what it is given. -/
  | element (name : String) (contents : List Datum)

/-- What is started. -/
inductive Launch
  | program (words : List String)
  /-- The interpreter that runs the program itself. -/
  | interpreter (words : List String)
  | server (app : String) (host port : Datum)

/-- A request that is sent to another machine. -/
structure Post where
  url : String
  headers : List (String × String) := []
  body : Datum
  timeout : Nat

/-- The answer to a request. -/
structure Reply where
  status : Int
  body : String

/-- What others do for the program. -/
structure Surroundings where
  /-- The variables of the environment. -/
  settings : List (String × String) := []
  /-- The time in whole seconds. -/
  clock : Int := 0
  /-- Divides a text into pieces that can be stored. -/
  split : Chunker.Splitter := Chunker.whole
  /-- What a started program does to the files. -/
  run : List String → FileTask Unit := fun _ => pure ()
  /-- Answers a request. -/
  post : Post → Except Fault Reply := fun _ => .ok ⟨201, "\x7b\x7d"⟩

/-- The traces of actions. -/
structure Session where
  files : Files
  /-- The stores by the text of their directory. -/
  stores : List (String × Client) := []
  /-- The rules that hold where no file says otherwise. -/
  rules : Datum := Rules.standard
  displays : List Display := []
  output : String := ""
  errors : String := ""
  launches : List Launch := []
  posts : List Post := []

/-- An action: it looks at its surroundings, changes the session, and may stop. What it did before it stops
remains. -/
abbrev Action (α : Type) := ReaderT Surroundings (ExceptT Stop (StateM Session)) α

namespace Action

variable {α : Type}

/-- Runs an action and tells its outcome and the session that it leaves. -/
def runOn (a : Action α) (around : Surroundings) (s : Session) : Except Stop α × Session :=
  ((a.run around).run).run s

/-- A result as an action. -/
def ofResult (r : Except Fault α) : Action α :=
  match r with
  | .ok x => pure x
  | .error f => throw (.fault f)

/-- Ends the program with a code. -/
def exit (code : Nat) : Action α :=
  throw (.exit code)

/-- A task on the files of the session. -/
def files (t : FileTask α) : Action α := do
  let (r, fs) := t.runOn (← get).files
  modify fun s => { s with files := fs }
  ofResult r

/-- A look at the files of the session. -/
def reading (look : Files → Except Fault α) : Action α :=
  files (FileTask.reading look)

/-- An action whose failure is a result. Other reasons to stop go on. -/
def attempt (a : Action α) : Action (Except Fault α) :=
  tryCatch (Except.ok <$> a) fun
    | .fault f => pure (.error f)
    | stop => throw stop

/-! ## What is shown -/

/-- Shows something. -/
def display (d : Display) : Action Unit :=
  modify fun s => { s with displays := s.displays ++ [d] }

/-- A line across the console with a heading. -/
def rule (text : String) : Action Unit :=
  display (.rule text)

/-- A line on the console. -/
def print (text : String) : Action Unit :=
  display (.line text)

/-- A line on the standard output. -/
def say (text : String) : Action Unit :=
  modify fun s => { s with output := s.output ++ text ++ "\n" }

/-- A line on the standard error output. -/
def complain (text : String) : Action Unit :=
  modify fun s => { s with errors := s.errors ++ text ++ "\n" }

/-! ## What others do -/

/-- The value of a variable of the environment. -/
def setting? (name : String) : Action (Option String) := do
  return (← read).settings.lookup name

/-- Starts something. -/
def launch (l : Launch) : Action Unit :=
  modify fun s => { s with launches := s.launches ++ [l] }

/-- Runs a program. -/
def run (words : List String) : Action Unit := do
  launch (.program words)
  files ((← read).run words)

/-- Sends a request. -/
def post (p : Post) : Action Reply := do
  modify fun s => { s with posts := s.posts ++ [p] }
  ofResult ((← read).post p)

/-! ## Rules and stores -/

/-- The rules of a file, or those that hold otherwise. -/
def rules (path : Path) : Action Datum := do
  let otherwise := (← get).rules
  reading fun fs => Rules.load fs (some path) otherwise

/-- The directory of the store if no other is named. -/
def usualStore : Path :=
  .ofString ".cqia_vectordb"

/-- Opens the store of a directory, which is made if it is missing. -/
def shelf (dir : Path) : Action Shelf := do
  files (FileTask.makeFolders dir)
  let client := ((← get).stores.lookup dir.toString).getD {}
  return client.open_

/-- Keeps what became of the store of a directory. -/
def keep (dir : Path) (shelf : Shelf) : Action Unit :=
  modify fun s =>
    { s with stores := (dir.toString, shelf.client) :: s.stores.filter (·.1 != dir.toString) }

/-- Searches the store of a directory. -/
def search (dir : Path) (settings : Search.Settings) (question : Datum) : Action (List Document) := do
  let shelf ← shelf dir
  keep dir shelf
  ofResult (Search.run shelf settings question)

end Action

end CodeAudit
