import CodeAudit.Datum.Arithmetic
import CodeAudit.Files.Tree
import CodeAudit.Script.Program
import CodeAudit.Source.Unit

/-!
# Costly work inside loops

## Main definitions

* `Performance.Walk.visit` — a walk through a tree that counts the loops it is in.
* `Performance.detect` — the findings on a list of functions.
-/

namespace CodeAudit

/-- Costly work inside a loop. -/
structure PerformanceFinding where
  id : String
  message : String
  file : String
  firstLine : Nat
  lastLine : Nat
  hint : String
  kind : String

/-- The attributes of a finding. -/
def PerformanceFinding.toRecord (f : PerformanceFinding) : Datum :=
  .record [("id", .text f.id), ("category", .text "performance"), ("message", .text f.message),
    ("file", .text f.file), ("start_line", .int f.firstLine), ("end_line", .int f.lastLine),
    ("hint", .text f.hint), ("kind", .text f.kind)]

namespace Performance

open CodeAudit.Script

/-- The kinds of costly work. -/
inductive Kind
  | request
  | fileAccess
  | concatenation
deriving DecidableEq

/-- The tag of a kind in reports. -/
def Kind.tag : Kind → String
  | request => "requests_in_loop"
  | fileAccess => "io_in_loop"
  | concatenation => "string_concat_in_loop"

/-- What is said of a kind. -/
def Kind.message : Kind → String
  | request => "HTTP request inside loop; consider batching or concurrency"
  | fileAccess => "File I/O inside loop; hoist reads/writes or buffer"
  | concatenation => "String concatenation in loop; use list append + ''.join(...)"

/-- What is advised against a kind. -/
def Kind.hint : Kind → String
  | request => "Use requests.Session for pooling or asyncio/httpx to parallelize."
  | fileAccess => "Read outside the loop or batch writes; flush once."
  | concatenation => "Append to a list inside loop, then s=''.join(parts) once."

/-! ## Calls -/

/-- The names of a chain of attributes, last name first. A chain that does not start at a name gives only
its attributes. -/
def chain : Node → List String
  | .mk _ (.attribute attr) _ [base] => attr :: chain base
  | .mk _ (.attribute attr) _ _ => [attr]
  | .mk _ (.name id) _ _ => [id]
  | _ => []

/-- What a call calls: the names before the last point, and the last name. A single attribute of
something that is no name cannot be told apart, and is a fault. -/
def target (callee : Node) : Except Fault (Option (String × String)) :=
  match callee.shape with
  | .name id => .ok (some ("", id))
  | .attribute _ =>
    match chain callee with
    | [] => .ok none
    | [_] => .error (.unhashable "list")
    | name :: qualifiers => .ok (some (String.intercalate "." qualifiers.reverse, name))
  | _ => .ok none

/-- Functions that send requests. -/
def isRequest (call : String × String) : Bool :=
  call.1 == "requests" && call.2 ∈ ["get", "post", "put", "delete", "head", "patch"]

/-- Functions that use files. -/
def isFileAccess (call : String × String) : Bool :=
  match call.1 with
  | "" => call.2 == "open"
  | "os" => call.2 ∈ ["remove", "rename", "replace", "listdir"]
  | "shutil" => call.2 ∈ ["copy", "copy2", "copyfile", "move"]
  | owner => (call.2 == "read_text" || call.2 == "write_text") && Text.contains owner "Path"

/-- The costly work that a node inside a loop does by itself. -/
def costOf (n : Node) : Except Fault (Option Kind) :=
  match n with
  | .mk _ .call _ (callee :: _) =>
    (target callee).map fun
      | some call => if isRequest call then some .request else if isFileAccess call then some .fileAccess else none
      | none => none
  | .mk _ (.augAssign "+") _ _ => .ok (some .concatenation)
  | _ => .ok none

/-- Whether a node makes what it holds run repeatedly. -/
def isLoop (n : Node) : Bool :=
  match n.shape with
  | .forLoop | .whileLoop => true
  | _ => false

/-- Where a walk through a tree stands: in how many loops, and what costly work it has found, each with its
node. -/
structure Walk where
  depth : Nat := 0
  found : List (Kind × Node) := []

namespace Walk

/-- A walk comes to a node; only inside a loop it asks what the node costs. -/
def meet (w : Walk) (n : Node) : Except Fault Walk :=
  (if 0 < w.depth then costOf n else .ok none).map fun own =>
    { w with found := w.found ++ own.toList.map (·, n) }

/-- **A walk through a tree**, outer before inner. It goes one loop deeper before the children of a loop, and
comes back behind them. -/
def visit (w : Walk) : Node → Except Fault Walk
  | .mk part shape extent children => do
    let n := Node.mk part shape extent children
    let met ← w.meet n
    if isLoop n then
      let inner ← visitAll { met with depth := met.depth + 1 } children
      return { inner with depth := inner.depth - 1 }
    else visitAll met children
where
  /-- A walk through a list of trees. -/
  visitAll (w : Walk) : List Node → Except Fault Walk
    | [] => .ok w
    | n :: rest => do visitAll (← visit w n) rest

end Walk

/-- The costly work in a tree, each with its node, outer before inner; `inLoop` says whether the tree
stands inside a loop. -/
def costs (inLoop : Bool) (n : Node) : Except Fault (List (Kind × Node)) :=
  (Walk.visit { depth := if inLoop then 1 else 0 } n).map (·.found)

/-- The finding on costly work. -/
def findingAt (file : String) (cost : Kind × Node) : PerformanceFinding where
  id := file ++ "::" ++ cost.1.tag ++ ":" ++ Number.decimalInt cost.2.firstLine
  message := cost.1.message
  file := file
  firstLine := cost.2.firstLine
  lastLine := cost.2.lastLine
  hint := cost.1.hint
  kind := cost.1.tag

/-- Whether a finding begins inside a function. -/
def within (fn : FunctionUnit) (f : PerformanceFinding) : Except Fault Bool := do
  if ← Datum.ordered .le fn.firstLine (.int f.firstLine) then
    Datum.ordered .le (.int f.firstLine) fn.lastLine
  else return false

/-- The findings on one function: those of its file that begin inside it. A file that cannot be read, or
is no program, gives none. -/
def inspect (fs : Files) (root : Path) (fn : FunctionUnit) : Except Fault (List PerformanceFinding) :=
  match fs.readText (root.join fn.path) with
  | .error _ => .ok []
  | .ok source =>
    match parse source with
    | .error _ => .ok []
    | .ok tree => do
      let found ← costs false tree
      (found.map (findingAt fn.path.toString)).filterM (within fn)

/-- **The findings on a list of functions.** -/
def detect (fs : Files) (root : Path) (functions : List FunctionUnit) :
    Except Fault (List PerformanceFinding) :=
  (functions.mapM (inspect fs root)).map List.flatten

end Performance

end CodeAudit
