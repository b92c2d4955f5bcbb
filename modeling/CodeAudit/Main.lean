import CodeAudit.Command.Basic
import CodeAudit.Session.Console

/-!
# The command line

The program reads the files below its working directory and below the directories that its line names, runs
the command of the line on them, shows what the command shows, and writes back the files that it changed. It
neither starts other programs nor sends requests: a command that needs either fails. Stores last as long as the
program runs.
-/

namespace CodeAudit.Main

/-- The place of the directory with a given text. -/
def placeOf (text : String) : Place :=
  (Path.ofString text).names

/-- What stands below a directory. Links to directories are left out. -/
partial def below (place : Place) (found : Array IO.FS.DirEntry) : IO (List (Place × Entry)) := do
  let mut entries : List (Place × Entry) := []
  for e in found do
    let there := place ++ [e.fileName]
    let own ← e.path.symlinkMetadata
    match own.type with
    | .dir => entries := entries ++ (there, .folder) :: (← below there (← e.path.readDir))
    | .file =>
      let bytes ← IO.FS.readBinFile e.path
      entries := entries ++ [(there, .file bytes.toList (own.modified.sec * 1000000000 + own.modified.nsec.toNat))]
    | _ => pure ()
  return entries

/-- The directories on the way to a place, with the place itself. -/
def onTheWay (place : Place) : List (Place × Entry) :=
  (List.range place.length).map fun n => (place.take (n + 1), .folder)

/-- The directory with a given text and what stands below it. -/
def load (text : String) : IO (List (Place × Entry)) := do
  let dir ← IO.FS.realPath text
  if ← dir.isDir then
    let place := placeOf dir.toString
    return onTheWay place ++ (← below place (← dir.readDir))
  return []

/-- The tree of files in which a line is run. -/
def files (words : List String) : IO Files := do
  let here ← IO.currentDir
  let named ← words.filterM fun (word : String) => do
    try (← IO.FS.realPath word).isDir catch _ => return false
  let parts ← (here.toString :: named).mapM load
  -- A directory that lies below another is found twice.
  return ⟨parts.flatten.eraseDupsBy (·.1 == ·.1), placeOf here.toString⟩

/-- Makes the changes between two trees. -/
def writeBack (before after : Files) : IO Unit := do
  for place in Files.removed before after do
    let path := (Files.pathOf place).toString
    match before.entry? place with
    | some .folder => IO.FS.removeDirAll path
    | _ => IO.FS.removeFile path
  for (place, e) in Files.changed before after do
    let path := (Files.pathOf place).toString
    match e with
    | .folder => IO.FS.createDirAll path
    | .file bytes _ => IO.FS.writeBinFile path ⟨bytes.toArray⟩
    | _ => pure ()

/-- What this program does for its commands. -/
def surroundings : IO Surroundings := do
  let token ← ["GITHUB_TOKEN", "GH_TOKEN"].filterMapM fun name => return (name, ·) <$> (← IO.getEnv name)
  return {
    settings := token
    clock := (← IO.monoMsNow) / 1000
    run := fun words => throw (.failedRun ("cannot start " ++ words.headD ""))
    post := fun _ => .error (.network "no connection") }

/-- Shows what an action left and tells the code with which the program ends. -/
def close (r : Except Stop Unit) (s : Session) : IO UInt32 := do
  for d in s.displays do
    d.lines.forM IO.println
  IO.print s.output
  IO.eprint s.errors
  match r with
  | .ok () =>
    if s.launches.isEmpty then return 0
    IO.eprintln "other programs cannot be started"
    return 1
  | .error (.exit code) => return code.toUInt32
  | .error (.fault f) =>
    IO.eprintln f.message
    return 1
  | .error .halt => return 0

end CodeAudit.Main

open CodeAudit in
/-- Runs the command of a line. -/
def main (words : List String) : IO UInt32 := do
  match Command.parse words with
  | .error _ =>
    IO.eprintln ("usage: one of " ++ ", ".intercalate (Command.all.map (·.name)))
    return 2
  | .ok (c, args) =>
    let files ← Main.files words
    let (r, s) := (c.run args).runOn (← Main.surroundings) { files }
    Main.writeBack files s.files
    Main.close r s
