import CodeAudit.Files.Task
import CodeAudit.Yaml.Writer

/-!
# Rules

Rules are kept in a YAML file. They hold thresholds and the weights of the categories.

## Main definitions

* `Rules.standard` — the rules that hold where no file says otherwise.
* `Rules.ofFile`, `Rules.load`, `Rules.save` — the rules of a file, and their way back.
-/

namespace CodeAudit.Rules

/-- The rules that hold where no file says otherwise. -/
def standard : Datum :=
  .object [
    ("complexity", .object [("warn_at", .int 10), ("p1_cutoff", .int 15), ("p0_cutoff", .int 20)]),
    ("duplication", .object [("k_shingle", .int 7), ("similarity_threshold", .float 0.9)]),
    ("weights", .object [("security", .float 1), ("complexity", .float 0.6), ("duplication", .float 0.5),
      ("performance", .float 0.6), ("documentation", .float 0.3), ("testing", .float 0.7)])]

/-- The file that holds the rules if no other is named. -/
def usualPath : Path :=
  .ofString "presets/rules.yaml"

/-- The rules in a text, if it is well formed and says anything. -/
def ofText? (s : String) : Option Datum :=
  (Yaml.read? s).filter (·.truthy)

/-- The rules of a file, if there is such a file and it says anything. -/
def ofFile (fs : Files) (path : Option Path) : Except Fault (Option Datum) := do
  let p := path.getD usualPath
  if ← fs.exists? p then return (fs.readStrict p).toOption.bind ofText? else return none

/-- **The rules of a file**, or others if there is no such file or it says nothing. -/
def load (fs : Files) (path : Option Path) (otherwise : Datum) : Except Fault Datum := do
  return (← ofFile fs path).getD otherwise

/-- **Writes rules to a file**, whose directory is made if it is missing, and tells which file it is. -/
def save (rules : Datum) (path : Option Path) : FileTask Path := do
  let p := path.getD usualPath
  FileTask.makeFolders p.parent
  let text ← FileTask.ofResult (Yaml.write rules)
  FileTask.changing (·.write p text)
  return p

end CodeAudit.Rules
