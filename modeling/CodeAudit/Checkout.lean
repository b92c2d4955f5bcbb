import CodeAudit.Session.Basic

/-!
# Checkouts

A repository on another machine is copied into a directory of its own below a working directory.

## Main definitions

* `Checkout.folderName` — the name of the directory for a repository's address.
* `Checkout.locate` — a repository that may already be here.
-/

namespace CodeAudit.Checkout

/-- A character that stays in the name of a directory. -/
def isSafe (c : Char) : Bool :=
  c.isAlphanum || c == '.' || c == '_' || c == '-'

/-- Removes a character from both ends. -/
def stripped (mark : Char) (cs : List Char) : List Char :=
  Text.dropEndWhile (· == mark) (cs.dropWhile (· == mark))

/-- **The name of the directory for an address**: the last part of the address, with underscores for unsafe
characters, or a name by the time if nothing is left of it. -/
def folderName (url : String) (clock : Int) : String :=
  let last := (Text.pieces '/' (Text.dropEndWhile (· == '/') url.toList)).getLastD []
  let bare := if Text.endsWith (String.ofList last) ".git" then last.dropLast.dropLast.dropLast.dropLast else last
  let safe := stripped '_' (bare.map fun c => if isSafe c then c else '_')
  if safe.isEmpty then "repo_" ++ Number.decimalInt clock else String.ofList safe

/-- What is done with a directory that stands where a copy is to go. -/
inductive Mode
  /-- It is removed. -/
  | clean
  /-- It stays, and the copy gets a name by the time. -/
  | unique
deriving DecidableEq

/-- The mode that a text names; any other text means that the directory is removed. -/
def Mode.ofText (s : String) : Mode :=
  if s == "unique" then .unique else .clean

/-- The program that copies the last state of a repository, of one branch if one is named. -/
def cloneWords (url : String) (branch : Option String) (target : Path) : List String :=
  let branchWords := match branch with
    | some b => if b.isEmpty then [] else ["--branch", b, "--single-branch"]
    | none => []
  ["git", "clone", "--depth", "1"] ++ branchWords ++ [url, target.toString]

/-- Where a copy is to go, depending on whether something already stands at its name. -/
def target (dest : Path) (name : String) (mode : Mode) (clock : Int) (taken : Bool) : Path :=
  if taken && mode = .unique then dest.child (name ++ "-" ++ Number.decimalInt clock) else dest.child name

/-- Makes room for a copy and tells where it is to go. -/
def makeRoom (dest : Path) (name : String) (mode : Mode) (clock : Int) : FileTask Path := do
  FileTask.makeFolders dest
  let taken ← FileTask.reading (·.exists? (dest.child name))
  if taken && mode = .clean then FileTask.removeTree (dest.child name)
  return target dest name mode clock taken

/-- **A new copy of a repository** below a directory. -/
def fresh (url : String) (dest : Path) (branch : Option String) (mode : Mode) : Action Path := do
  let clock := (← read).clock
  let target ← Action.files (makeRoom dest (folderName url clock) mode clock)
  Action.run (cloneWords url branch target)
  return target

/-- The name of the directory for a repository that is given by a path or an address. -/
def placeName (source : String) : String :=
  let stem := Text.dropEndWhile (· == '.') (Path.ofString source).stem.toList
  if stem.isEmpty then "repo" else String.ofList stem

/-- **A repository that may already be here**: at its path, or as a copy below a working directory. -/
def locate (source : String) (work : Path) : Action Path := do
  let path := Path.ofString source
  if ← Action.reading (·.exists? path) then return path
  let target := work.child (placeName source)
  if ← Action.reading (·.exists? target) then return target
  Action.run (cloneWords source none target)
  return target

end CodeAudit.Checkout
