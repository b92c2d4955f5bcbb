import CodeAudit.Fault
import CodeAudit.Files.Path
import CodeAudit.Text.Utf8

/-!
# Trees of files

A tree of files is a row of entries, each at its own place below the root. Paths are written relative to
a working directory and may lead through links; a place is where a path arrives.

## Main definitions

* `Entry`, `Files` — what can stand at a place, and a tree of files.
* `Files.visit` — the files below a directory.
-/

namespace CodeAudit

/-- A place in a tree of files: the names that lead to it from the root. -/
abbrev Place := List String

/-- What can stand at a place. -/
inductive Entry
  /-- A file with its bytes and the time of its last change, in nanoseconds. -/
  | file (bytes : List UInt8) (time : Int)
  | folder
  /-- A link to another path. -/
  | link (target : String)
  /-- A file that cannot be opened. -/
  | socket
deriving DecidableEq

/-- The names through which a link leads. -/
def Entry.names : Entry → List String
  | link target => (Path.ofString target).names
  | _ => []

/-- A tree of files. Places are named at most once; the root itself is not listed. -/
structure Files where
  entries : List (Place × Entry)
  /-- The working directory. -/
  here : Place

namespace Files

/-- A tree that holds nothing but its working directory. -/
def empty : Files :=
  ⟨[(["work"], .folder)], ["work"]⟩

variable (fs : Files)

/-- What stands at a place. -/
def entry? (place : Place) : Option Entry :=
  if place.isEmpty then some .folder else (fs.entries.find? (·.1 == place)).map (·.2)

/-- The place of a path that has neither links nor parent steps. -/
def placeOf (p : Path) : Place :=
  if p.isAbsolute then p.names else fs.here ++ p.names

/-- The names at which a path starts: the root or the working directory. -/
def start (p : Path) : Place :=
  if p.isAbsolute then [] else fs.here

/-- A name of more than 255 bytes, which no entry has. -/
def isTooLong (name : String) : Bool :=
  name.utf8ByteSize > 255

/-! ## Links -/

/-- The names through which the links of a tree lead. -/
def linkedNames : List String :=
  (fs.entries.map (·.2.names)).flatten

theorem length_names_le {place : Place} {e : Entry} (h : fs.entry? place = some e) :
    e.names.length ≤ fs.linkedNames.length := by
  unfold entry? at h
  split at h
  · cases h
    exact Nat.zero_le _
  · obtain ⟨listed, hfound, rfl⟩ := Option.map_eq_some_iff.mp h
    have hmem := List.mem_map_of_mem (f := fun e : Place × Entry => e.2.names) (List.mem_of_find?_eq_some hfound)
    exact (List.sublist_flatten_of_mem hmem).length_le

/-- The place to which names lead from a place, through at most `links` links. Something must stand at
every place on the way except the last, and it must be a directory. -/
def followFrom (links : Nat) (place : Place) (names : List String) : Except FileFault Place :=
  match names with
  | [] => .ok place
  | name :: rest =>
    match fs.entry? place with
    | none => .error .missing
    | some .folder =>
      if name == ".." then followFrom links place.dropLast rest
      else if isTooLong name then .error .longName
      else match _h : fs.entry? (place ++ [name]) with
        | some (.link target) =>
          match links with
          | 0 => .error .linkLoop
          | links + 1 =>
            let target := Path.ofString target
            followFrom links (if target.isAbsolute then [] else place) (target.names ++ rest)
        | _ => followFrom links (place ++ [name]) rest
    | some _ => .error .notFolder
termination_by links * (fs.linkedNames.length + 1) + names.length
decreasing_by
  all_goals simp_wf
  have := fs.length_names_le _h
  grind [Entry.names]

/-- At most so many links are followed when a path is opened. -/
def linkLimit : Nat := 40

/-- The place to which a path leads when it is opened. -/
def follow (p : Path) : Except FileFault Place :=
  followFrom fs linkLimit (fs.start p) p.names

/-- What a path leads to. -/
def find (p : Path) : Except FileFault (Place × Entry) := do
  let place ← fs.follow p
  match fs.entry? place with
  | some e => .ok (place, e)
  | none => .error .missing

/-- Whether something stands where a path leads. Names that are too long cannot be asked for. -/
def exists? (p : Path) : Except Fault Bool :=
  match fs.find p with
  | .ok _ => .ok true
  | .error .longName => .error (.file .longName p.toString)
  | .error _ => .ok false

/-- Whether a path leads to a directory. -/
def isFolder (p : Path) : Bool :=
  match fs.find p with
  | .ok (_, .folder) => true
  | _ => false

/-- Whether a path ends in a link. -/
def isLink (p : Path) : Bool :=
  match fs.follow p.parent with
  | .ok place =>
    match fs.entry? (place ++ [p.name]) with
    | some (.link _) => true
    | _ => false
  | .error _ => false

/-- The place that names lead to from a place; where nothing stands, names are taken as they are. -/
def resolveFrom (links : Nat) (place : Place) (names : List String) : Except Fault Place :=
  match names with
  | [] => .ok place
  | name :: rest =>
    if name == ".." then resolveFrom links place.dropLast rest
    else match _h : fs.entry? (place ++ [name]) with
      | some (.link target) =>
        match links with
        | 0 => .error (.circularLink ("/" ++ String.intercalate "/" (place ++ name :: rest)))
        | links + 1 =>
          let target := Path.ofString target
          resolveFrom links (if target.isAbsolute then [] else place) (target.names ++ rest)
      | _ => resolveFrom links (place ++ [name]) rest
termination_by links * (fs.linkedNames.length + 1) + names.length
decreasing_by
  all_goals simp_wf
  have := fs.length_names_le _h
  grind [Entry.names]

/-- The place that a path names. -/
def resolve (p : Path) : Except Fault Place :=
  resolveFrom fs (fs.entries.length * fs.entries.length) (fs.start p) p.names

/-- A place as an absolute path. -/
def pathOf (place : Place) : Path :=
  ⟨"/", place⟩

/-! ## Reading -/

/-- The bytes of a file. -/
def readBytes (p : Path) : Except Fault (List UInt8) :=
  match fs.find p with
  | .ok (_, .file bytes _) => .ok bytes
  | .ok (_, .folder) => .error (.file .isFolder p.toString)
  | .ok (_, _) => .error (.file .noDevice p.toString)
  | .error e => .error (.file e p.toString)

/-- The text of bytes with unified line ends; malformed parts are left out. -/
def textOf (bytes : List UInt8) : String :=
  String.ofList (Text.unifyNewlines (Text.decodeLossy bytes).toList)

/-- The text of a file; malformed parts are left out. -/
def readText (p : Path) : Except Fault String :=
  (fs.readBytes p).map textOf

/-- The text of a well-formed file. -/
def readStrict (p : Path) : Except Fault String := do
  match Text.decode? (← fs.readBytes p) with
  | some s => .ok (String.ofList (Text.unifyNewlines s.toList))
  | none => .error .malformedText

/-- The size of what stands at a place, in bytes. -/
def sizeOf : Entry → Nat
  | .file bytes _ => bytes.length
  | .folder => 4096
  | _ => 0

/-- The time of the last change of an entry. -/
def timeOf : Entry → Int
  | .file _ time => time
  | _ => 0

/-! ## Directories -/

/-- The names and entries right below a place. -/
def children (place : Place) : List (String × Entry) :=
  fs.entries.filterMap fun (at_, e) =>
    match at_.getLast? with
    | some name => if at_.dropLast == place then some (name, e) else none
    | none => none

/-- The names in a directory. -/
def list (p : Path) : Except FileFault (List String) := do
  match ← fs.find p with
  | (place, .folder) => .ok ((fs.children place).map (·.1))
  | _ => .error .notFolder

/-- A path with one more name. -/
def extend (p : Path) (name : String) : Path :=
  ⟨p.root, p.names ++ [name]⟩

/-- The files below a directory, each as the path of its directory and its name. Directories are entered
if `enter` allows it, and links to directories only with `throughLinks`. At most `depth` levels are
visited. -/
def visit (throughLinks : Bool) (enter : Path → String → Bool) :
    (depth : Nat) → Path → List (Path × String)
  | 0, _ => []
  | depth + 1, dir =>
    match fs.list dir with
    | .error _ => []
    | .ok names =>
      let (folders, others) := names.partition fun name => fs.isFolder (extend dir name)
      others.map (fun name => (dir, name)) ++
        (folders.filter (enter dir)).flatMap fun name =>
          if throughLinks || !fs.isLink (extend dir name) then
            visit throughLinks enter depth (extend dir name)
          else []

/-- More levels than any path can have that is opened through the allowed number of links. -/
def depthLimit : Nat :=
  (linkLimit + 1) * (fs.entries.length + 1)

end Files

end CodeAudit
