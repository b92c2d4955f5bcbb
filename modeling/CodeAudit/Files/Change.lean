import CodeAudit.Files.Tree

/-!
# Changes of a tree of files

## Main definitions

* `Files.put` — sets what stands at a place.
* `Files.removeTree` — removes a directory with everything below it.
-/

namespace CodeAudit.Files

variable (fs : Files)

/-- Sets what stands at a place; a place that is already listed keeps its position. -/
def put (place : Place) (e : Entry) : Files :=
  if fs.entries.any (·.1 == place) then
    { fs with entries := fs.entries.map fun (p, old) => if p == place then (p, e) else (p, old) }
  else { fs with entries := fs.entries ++ [(place, e)] }

/-- Makes one directory. -/
def makeFolder (p : Path) : Except FileFault Files := do
  let parent ← fs.follow p.parent
  match fs.entry? parent with
  | none => .error .missing
  | some .folder =>
    if p.names.isEmpty || p.name == ".." then .error .taken
    else if isTooLong p.name then .error .longName
    else if (fs.entry? (parent ++ [p.name])).isSome then .error .taken
    else .ok (fs.put (parent ++ [p.name]) .folder)
  | some _ => .error .notFolder

/-- Makes one directory, unless it is there. The second part is what is there afterwards. -/
def ensureFolder (p : Path) : Except Fault Unit × Files :=
  match fs.makeFolder p with
  | .ok fs => (.ok (), fs)
  | .error e => (if fs.isFolder p then .ok () else .error (.file e p.toString), fs)

/-- Makes the directory with the given root and names, last name first, and its parents. -/
def ensureFoldersFrom (root : String) (fs : Files) : List String → Except Fault Unit × Files
  | [] => (.ok (), fs)
  | name :: parents =>
    let p : Path := ⟨root, (name :: parents).reverse⟩
    match fs.makeFolder p with
    | .error .missing =>
      match ensureFoldersFrom root fs parents with
      | (.ok (), fs) => fs.ensureFolder p
      | (.error f, fs) => (.error f, fs)
    | _ => fs.ensureFolder p

/-- Makes a directory and its parents, unless it is there. The second part is what is there afterwards: parents
that were made before a failure remain. -/
def ensureFolders (p : Path) : Except Fault Unit × Files :=
  ensureFoldersFrom p.root fs p.names.reverse

/-- The tree in which a directory and its parents were made. -/
def makeFolders (p : Path) : Except Fault Files :=
  (fs.ensureFolders p).1.map fun _ => (fs.ensureFolders p).2

/-- The time of a change that is made while the program runs. -/
def now : Int := 4000000000000000000

/-- Sets the bytes of a file, which may be new. -/
def writeAt (p : Path) (change : List UInt8 → List UInt8) : Except FileFault Files := do
  let place ← fs.follow p
  match fs.entry? place with
  | some (.file bytes _) => .ok (fs.put place (.file (change bytes) now))
  | some .folder => .error .isFolder
  | some _ => .error .noDevice
  | none =>
    match fs.entry? place.dropLast with
    | some .folder => .ok (fs.put place (.file (change []) now))
    | some _ => .error .notFolder
    | none => .error .missing

/-- Sets the bytes of a file, which may be new. -/
def writeBytes (p : Path) (change : List UInt8 → List UInt8) : Except Fault Files :=
  (fs.writeAt p change).mapError (.file · p.toString)

/-- Sets the text of a file. -/
def write (p : Path) (s : String) : Except Fault Files :=
  fs.writeBytes p fun _ => Text.encode s

/-- Adds text at the end of a file. -/
def append (p : Path) (s : String) : Except Fault Files :=
  fs.writeBytes p fun bytes => bytes ++ Text.encode s

/-- Whether a place lies properly below another. -/
def isBelow (base place : Place) : Bool :=
  base.isPrefixOf place && base.length < place.length

/-- Removes a directory with everything below it. What is below goes first, so a path that leads through
its own directory no longer leads anywhere when the directory itself is to go. A link is left alone. The
second part is what is left, also after a failure. -/
def removeTree (p : Path) : Except FileFault Unit × Files :=
  if fs.isLink p then (.ok (), fs)
  else
    match fs.find p with
    | .error e => (.error e, fs)
    | .ok (place, .folder) =>
      let emptied := { fs with entries := fs.entries.filter fun (at_, _) => !isBelow place at_ }
      match emptied.follow p with
      | .ok place => (.ok (), { emptied with entries := emptied.entries.filter fun (at_, _) => at_ != place })
      | .error e => (.error e, emptied)
    | .ok _ => (.error .notFolder, fs)

/-- Puts an entry at a path below a place, with the directories that lead to it. -/
def install (base : Place) (p : Path) (e : Entry) : Files :=
  let parents := (List.range p.names.length).map fun n => base ++ p.names.take n
  let fs := parents.foldl
    (fun fs place => if (fs.entry? place).isSome then fs else fs.put place .folder) fs
  let place := base ++ p.names
  match e, fs.entry? place with
  | .folder, some _ => fs
  | _, _ => fs.put place e

end CodeAudit.Files
