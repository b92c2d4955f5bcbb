import CodeAudit.Detect.Documentation
import CodeAudit.Files.Tree
import CodeAudit.Source.Unit

/-!
# Missing tests

A source file is tested if a test file stands at one of the places where its tests are expected.

## Main definitions

* `Testing.expectedTests` — the places where the tests of a file are expected.
* `Testing.detect` — the gaps of a list of source files.
-/

namespace CodeAudit

/-- A source file without a test file. -/
structure TestGap where
  id : String
  message : String
  file : String
  expected : String
  hint : String

/-- The attributes of a finding. -/
def TestGap.toRecord (f : TestGap) : Datum :=
  .record [("id", .text f.id), ("category", .text "testing"), ("message", .text f.message),
    ("file", .text f.file), ("expected_test", .text f.expected), ("hint", .text f.hint)]

namespace Testing

/-- **The places where the tests of a file are expected**: in a directory of tests, by name or by package
and name, and beside the file; each place once. -/
def expectedTests (source : Path) : List Path :=
  let name := source.stem
  let package := source.parent.toString
  let ahead := "test_" ++ name ++ ".py"
  let behind := name ++ "_test.py"
  [Path.ofString ("tests/" ++ ahead), Path.ofString ("tests/" ++ package ++ "/" ++ ahead),
    Path.ofString ("tests/" ++ behind), Path.ofString ("tests/" ++ package ++ "/" ++ behind),
    source.parent.child ahead, source.parent.child behind].eraseDups

/-- A list of paths as text. -/
def shownPaths (paths : List Path) : String :=
  "[" ++ String.intercalate ", " (paths.map fun p => "PosixPath(" ++ Text.quoted p.toString ++ ")") ++ "]"

/-- Whether a file is itself a test. -/
def isTest (source : Path) : Bool :=
  Text.startsWith source.name "test_" || Text.endsWith source.name "_test.py"

/-- Whether something stands at one of some paths; they are asked for in order. -/
def existsAny (fs : Files) (root : Path) : List Path → Except Fault Bool
  | [] => .ok false
  | p :: rest => do if ← fs.exists? (root.join p) then return true else existsAny fs root rest

/-- The gap of a source file. -/
def gapOf (source : Path) : TestGap where
  id := source.toString ++ "::testgap"
  message := "No test file found for " ++ source.toString
  file := source.toString
  expected := shownPaths (expectedTests source)
  hint := "Create a pytest file like tests/test_" ++ source.stem ++ ".py and add at least one test."

/-- The gap of a file, if it is a source file without a test. -/
def inspect (fs : Files) (root source : Path) : Except Fault (Option TestGap) := do
  if source.suffix != ".py" || isTest source then return none
  if ← existsAny fs root (expectedTests source) then return none
  return some (gapOf source)

/-- **The gaps of a list of source files.** -/
def detect (fs : Files) (root : Path) (sources : List Path) : Except Fault (List TestGap) :=
  (sources.mapM (inspect fs root)).map (List.filterMap id)

/-- Missing documentation of a module; a file that cannot be read counts as empty. -/
def moduleDocumentation (fs : Files) (root path : Path) (lang : Language) : List DocumentationFinding :=
  if lang = .python then Documentation.detect path ((fs.readText (root.join path)).toOption.getD "") else []

/-- Missing documentation and missing tests of a list of modules. -/
def inspectModules (fs : Files) (root : Path) (modules : List (Path × Language)) :
    Except Fault (List DocumentationFinding × List TestGap) := do
  let docs := modules.flatMap fun (path, lang) => moduleDocumentation fs root path lang
  let gaps ← detect fs root ((modules.filter (·.2 = .python)).map (·.1))
  return (docs, gaps)

end Testing

end CodeAudit
