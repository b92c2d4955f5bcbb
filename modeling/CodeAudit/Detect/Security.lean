import CodeAudit.Datum.Basic
import CodeAudit.Files.Path
import CodeAudit.Script.Program
import CodeAudit.Text.Case

/-!
# Unsafe calls

## Main definitions

* `Security.scanScript` — the findings on a Python source, call by call.
* `Security.scanText` — the findings on a source text of another language, by the words in it.
-/

namespace CodeAudit

/-- A place where unsafe code may run. -/
structure SecurityFinding where
  id : String
  message : String
  file : String
  firstLine : Nat
  lastLine : Nat
  hint : String

/-- The attributes of a finding. -/
def SecurityFinding.toRecord (f : SecurityFinding) : Datum :=
  .record [("id", .text f.id), ("category", .text "security"), ("message", .text f.message),
    ("file", .text f.file), ("start_line", .int f.firstLine), ("end_line", .int f.lastLine),
    ("hint", .text f.hint)]

namespace Security

open CodeAudit.Script

/-- The unsafe calls of a script. -/
inductive Hazard
  /-- Text is run as code by the named function. -/
  | dynamicCode (name : String)
  /-- A command is run by a shell. -/
  | shellCommand
  /-- A document is loaded that may make any object. -/
  | unsafeLoad
deriving DecidableEq

/-- What is said of a hazard. -/
def Hazard.message : Hazard → String
  | dynamicCode name => "Use of " ++ name ++ " is dangerous"
  | shellCommand => "subprocess with shell=True can lead to command injection"
  | unsafeLoad => "yaml.load without SafeLoader is unsafe"

/-- What is advised against a hazard. -/
def Hazard.hint : Hazard → String
  | dynamicCode _ => "Avoid eval/exec; parse inputs or use safe alternatives."
  | shellCommand => "Pass shell=False and provide args list; sanitize inputs."
  | unsafeLoad => "Use yaml.safe_load or specify SafeLoader."

/-- The name behind the point and the name before it, if a call is to an attribute of a name. -/
def attributeCall? (callee : Node) : Option (String × String) :=
  match callee with
  | .mk _ (.attribute attr) _ [.mk _ (.name id) _ _] => some (id, attr)
  | _ => none

/-- Whether a named argument asks for a shell. -/
def asksForShell (argument : Node) : Bool :=
  match argument with
  | .mk .keyword (.keyword (some "shell")) _ [.mk _ (.constant .true) _ _] => true
  | _ => false

/-- The hazards of a call with a given callee and arguments. -/
def hazardsOf (callee : Node) (arguments : List Node) : List Hazard :=
  match callee.shape with
  | .name id => if id == "eval" || id == "exec" then [.dynamicCode id] else []
  | _ =>
    match attributeCall? callee with
    | some ("subprocess", attr) =>
      if attr ∈ ["Popen", "call", "run"] && arguments.any asksForShell then [.shellCommand] else []
    | some ("yaml", "load") => [.unsafeLoad]
    | _ => []

/-- The hazards of a node; only calls have some. -/
def hazards (n : Node) : List Hazard :=
  match n with
  | .mk _ .call _ (callee :: arguments) => hazardsOf callee arguments
  | _ => []

/-- The finding on a hazard at a node. -/
def findingAt (file : String) (n : Node) (h : Hazard) : SecurityFinding where
  id := file ++ "::" ++ Number.decimalInt n.firstLine ++ "#pysec"
  message := h.message
  file := file
  firstLine := n.firstLine
  lastLine := n.lastLine
  hint := h.hint

/-- The findings on a tree, each call before the calls inside it. -/
def scanTree (file : String) (tree : Node) : List SecurityFinding :=
  tree.preorder.flatMap fun n => (hazards n).map (findingAt file n)

/-- **The findings on a Python source**; a text that is no program has none. -/
def scanScript (path : Path) (source : String) : List SecurityFinding :=
  match parse source with
  | .ok tree => scanTree path.toString tree
  | .error _ => []

/-- A word that makes a text suspicious: all of the marks must occur in it. -/
structure Suspicion where
  marks : List String
  tag : String
  message : String
  hint : String

/-- The suspicious words of scripts for browsers and servers. -/
def suspicions : List Suspicion :=
  [⟨["eval("], "eval", "Use of eval detected", "Avoid eval; use JSON.parse or safer parsing."⟩,
    ⟨["new function("], "newfunc", "Use of new Function detected", "Avoid dynamic code execution."⟩,
    ⟨["child_process", ".exec("], "exec", "child_process.exec detected; risk of command injection",
      "Prefer execFile/spawn with args; sanitize inputs."⟩]

/-- **The findings on a source text of another language**, in which upper and lower case do not differ. -/
def scanText (path : Path) (source : String) : List SecurityFinding :=
  let lowered := Text.lower source
  (suspicions.filter fun s => s.marks.all (Text.contains lowered)).map fun s =>
    { id := path.toString ++ "::" ++ s.tag ++ "#jssec"
      message := s.message
      file := path.toString
      firstLine := 1
      lastLine := 1
      hint := s.hint }

end Security

end CodeAudit
