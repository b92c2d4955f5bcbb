import CodeAudit.Files.Change

/-!
# Tasks on files

A task reads and changes a tree of files and may fail. Changes that were made before a failure remain.

## Main definitions

* `FileTask` — the tasks.
* `FileTask.attempt` — a task whose failure is a result.
-/

namespace CodeAudit

/-- A task that reads and changes files and may fail. -/
abbrev FileTask (α : Type) := ExceptT Fault (StateM Files) α

namespace FileTask

variable {α : Type}

/-- A result as a task. -/
def ofResult (r : Except Fault α) : FileTask α :=
  ExceptT.mk (pure r)

/-- A look at the files. -/
def reading (look : Files → Except Fault α) : FileTask α := do
  ExceptT.mk (pure (look (← get)))

/-- A change of the files. -/
def changing (change : Files → Except Fault Files) : FileTask Unit := do
  set (← reading change)

/-- A change of the files that may be left half done. -/
def changingOn (change : Files → Except Fault α × Files) : FileTask α :=
  ExceptT.mk change

/-- Makes a directory and its parents, unless it is there. -/
def makeFolders (p : Path) : FileTask Unit :=
  changingOn (·.ensureFolders p)

/-- Removes a directory with everything below it. -/
def removeTree (p : Path) : FileTask Unit :=
  changingOn fun fs => ((fs.removeTree p).1.mapError (.file · p.toString), (fs.removeTree p).2)

/-- A task whose failure is a result. -/
def attempt (t : FileTask α) : FileTask (Except Fault α) :=
  ExceptT.mk (Except.ok <$> t.run)

/-- Runs a task and tells its outcome and the files that it leaves. -/
def runOn (t : FileTask α) (fs : Files) : Except Fault α × Files :=
  t.run.run fs

end FileTask

end CodeAudit
