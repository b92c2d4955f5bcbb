import CodeAudit.Text.Split

/-!
# Paths

A path is a row of names below the working directory or below the root. Empty names and single points
are dropped when a path is read, so paths that differ only in them are equal.

## Main definitions

* `Path`, `Path.ofString`, `Path.toString` — paths and their text.
* `Path.name`, `Path.stem`, `Path.suffix`, `Path.parent` — the parts of a path.
-/

namespace CodeAudit

/-- A path: its root, which is empty for a relative path, and the names below it. -/
structure Path where
  root : String
  names : List String
deriving DecidableEq, Inhabited

namespace Path

/-- The root of a path's text: exactly two slashes at the start are a root of their own. -/
def rootOf (s : List Char) : String :=
  match s with
  | '/' :: '/' :: '/' :: _ => "/"
  | '/' :: '/' :: _ => "//"
  | '/' :: _ => "/"
  | _ => ""

/-- Reads a path. -/
def ofString (s : String) : Path :=
  ⟨rootOf s.toList, (Text.splitOn '/' s).filter fun name => !name.isEmpty && name != "."⟩

/-- The text of a path; the working directory itself is a point. -/
def toString (p : Path) : String :=
  if p.root.isEmpty && p.names.isEmpty then "." else p.root ++ String.intercalate "/" p.names

/-- Whether a path starts at the root. -/
def isAbsolute (p : Path) : Bool :=
  !p.root.isEmpty

/-- A path below another; an absolute path stays as it is. -/
def join (base p : Path) : Path :=
  if p.isAbsolute then p else ⟨base.root, base.names ++ p.names⟩

/-- A path below another, from its text. -/
def child (base : Path) (s : String) : Path :=
  base.join (ofString s)

/-- The last name, or nothing. -/
def name (p : Path) : String :=
  p.names.getLast?.getD ""

/-- Splits a name at its last point, unless that stands first or last. -/
def splitName (name : String) : String × String :=
  let cs := name.toList
  let tail := (cs.reverse.takeWhile (· != '.')).reverse
  let head := cs.take (cs.length - tail.length - 1)
  if cs.contains '.' && !head.isEmpty && !tail.isEmpty then
    (String.ofList head, String.ofList ('.' :: tail))
  else (name, "")

/-- The last name without its suffix. -/
def stem (p : Path) : String :=
  (splitName p.name).1

/-- The end of the last name from its last point on. -/
def suffix (p : Path) : String :=
  (splitName p.name).2

/-- The path without its last name. -/
def parent (p : Path) : Path :=
  ⟨p.root, p.names.dropLast⟩

/-- The names of a path below a directory, if it lies there. -/
def below? (base p : Path) : Option Path :=
  if base.root = p.root && base.names.isPrefixOf p.names then
    some ⟨"", p.names.drop base.names.length⟩
  else none

end Path

end CodeAudit
