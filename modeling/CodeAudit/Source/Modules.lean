import CodeAudit.Files.Tree
import CodeAudit.Source.Declarations
import CodeAudit.Source.Outline

/-!
# Modules of a repository

## Main definitions

* `Modules.readModule` — the module of a file.
* `Modules.readAll` — the modules of a list of files.
-/

namespace CodeAudit.Modules

/-- The text of a file; a file that cannot be read counts as empty. -/
def sourceText (fs : Files) (root path : Path) : String :=
  (fs.readText (root.join path)).toOption.getD ""

/-- The module of a source text in a language. Only for Python sources functions are known without help. -/
def ofText (path : Path) (lang : Language) (source : String) : Except Fault ModuleUnit :=
  match lang with
  | .python =>
    match Source.outline path source with
    | .ok m => .ok m
    | .error fault => .error (.malformedSource fault)
  | .javascript | .typescript => .ok (Declarations.outline path lang source none)
  | _ => .ok ⟨path, .unknown, []⟩

/-- The module of a file below a root. -/
def readModule (fs : Files) (root path : Path) : Except Fault ModuleUnit :=
  ofText path (Language.ofEnding (root.join path).toString) (sourceText fs root path)

/-- The modules of a list of files; the first file that is no program makes it fail. -/
def readAll (fs : Files) (root : Path) (paths : List Path) : Except Fault (List ModuleUnit) :=
  paths.mapM (readModule fs root)

end CodeAudit.Modules
