import CodeAudit.Files.Tree
import CodeAudit.Glob.Ignore
import CodeAudit.Glob.Shell
import CodeAudit.Sequence
import CodeAudit.Source.Language

/-!
# Scan of a repository

A scan lists the source files of a repository. Some directories are never entered; others are left out by
ignore rules or by shell patterns, and a file is listed if a shell pattern asks for it, it is not too
large, and it can be read.

## Main definitions

* `FileInfo` — what a scan tells of a file.
* `Scan.scan` — the files of a repository, in the order of their paths.
-/

namespace CodeAudit

/-- What a scan tells of a file. -/
structure FileInfo where
  /-- The path from the repository, or an absolute one if a link leads out of it. -/
  path : Path
  bytes : Nat
  lines : Nat
  language : Language

namespace Scan

/-- What a scan asks for and leaves out. -/
structure Options where
  /-- The patterns of files that are asked for. -/
  wanted : List String
  /-- The patterns of files and directories that are left out. -/
  unwanted : List String
  maxBytes : Int
  throughLinks : Bool := false
  /-- Whether ignore rules are in use. -/
  ignoreRules : Bool := true

/-- The names of directories that are never entered. -/
def closedFolders : List String :=
  [".git", ".hg", ".svn", ".venv", "venv", "env", "__pycache__", "node_modules", "dist", "build", ".next",
    ".turbo", ".idea", ".vscode", ".cache", ".pytest_cache"]

/-- The lines of a repository's ignore file. -/
def ignoreLines (fs : Files) (root : Path) : List String :=
  match fs.readText (Files.extend root ".gitignore") with
  | .ok s => Text.lines s
  | .error _ => []

/-- The ignore rules of a repository: those of its ignore file, then the unwanted patterns. A malformed
rule makes all of them void. -/
def rules (fs : Files) (root : Path) (options : Options) : List Ignore.Rule :=
  if options.ignoreRules then (Ignore.parse? (ignoreLines fs root ++ options.unwanted)).getD [] else []

/-- A place as a path from the root of the repository, or as an absolute one. -/
def relativeTo (root place : Place) : Path :=
  if root.isPrefixOf place then ⟨"", place.drop root.length⟩ else Files.pathOf place

/-- Whether a path is left out by an ignore rule or an unwanted pattern. -/
def isUnwanted (rules : List Ignore.Rule) (options : Options) (p : Path) : Bool :=
  Ignore.ignores rules p.toString || Shell.fitsAny options.unwanted p.toString

/-- Whether a directory is entered, given the path of the directory that holds it. -/
def enters (rules : List Ignore.Rule) (options : Options) (dir : Path) (name : String) : Bool :=
  !closedFolders.contains name && !isUnwanted rules options (Files.extend dir name)

/-- What is listed of a file, if it is listed. A file that is gone is left out; a wanted one whose place
cannot be looked at for another reason is a fault. -/
def inspect? (fs : Files) (root : Place) (rules : List Ignore.Rule) (options : Options) (place : Place) :
    Except Fault (Option FileInfo) :=
  let p := relativeTo root place
  if isUnwanted rules options p || !Shell.fitsAny options.wanted p.toString then .ok none
  else match fs.find (Files.pathOf place) with
    | .error .missing => .ok none
    | .error e => .error (.file e (Files.pathOf place).toString)
    | .ok (_, e) =>
      if (Files.sizeOf e : Int) > options.maxBytes then .ok none
      else match fs.readText (Files.pathOf place) with
        | .ok s => .ok (some ⟨p, Files.sizeOf e, s.toList.count '\n' + 1, Language.ofSuffix p⟩)
        | .error _ => .ok none

/-- The path by which rules know a directory: the one from the root of the repository, or the written one if
it lies elsewhere or cannot be resolved. -/
def knownAs (fs : Files) (top : Place) (dir : Path) : Path :=
  match fs.resolve dir with
  | .ok place => if top.isPrefixOf place then relativeTo top place else dir
  | .error _ => dir

/-- The files of a repository in the order of their paths. -/
def scan (fs : Files) (root : Path) (options : Options) : Except Fault (List FileInfo) := do
  let top ← fs.resolve root
  let rules := rules fs (Files.pathOf top) options
  let enter (dir : Path) (name : String) := enters rules options (knownAs fs top dir) name
  let found := fs.visit options.throughLinks enter fs.depthLimit (Files.pathOf top)
  let infos ← found.mapM fun (dir, name) => do
    inspect? fs top rules options (← fs.resolve (Files.extend dir name))
  return Sequence.sorted (fun a b => !(b.path.toString < a.path.toString)) (infos.filterMap id)

end Scan

end CodeAudit
