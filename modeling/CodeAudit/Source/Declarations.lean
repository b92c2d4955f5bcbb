import CodeAudit.Datum.Arithmetic
import CodeAudit.Source.Unit
import CodeAudit.Text.Utf8

/-!
# Functions of a given syntax tree

For some languages a syntax tree may be given from outside. Its nodes cover stretches of the bytes of the
source, and the functions of the source are the named function declarations in it. The nodes are visited one
after another, with a stack of those that wait.

## Main definitions

* `SyntaxNode` — a node of a given tree.
* `Declarations.outline` — the functions of a source with a given tree, or without one.
-/

namespace CodeAudit

/-- A node of a given syntax tree. -/
structure SyntaxNode where
  kind : String
  startByte : Int
  stopByte : Int
  /-- Points are the numbers of lines; they may have any kind. -/
  startPoint : Datum
  stopPoint : Datum
  /-- The bytes of the name, if there is one. -/
  name : Option (Int × Int)
  children : List SyntaxNode
deriving Inhabited

namespace SyntaxNode

/-- The nodes of a tree, each before its children. -/
def preorder : SyntaxNode → List SyntaxNode
  | mk kind startByte stopByte startPoint stopPoint name children =>
    mk kind startByte stopByte startPoint stopPoint name children :: preorderList children
where
  /-- The nodes of a list of trees. -/
  preorderList : List SyntaxNode → List SyntaxNode
    | [] => []
    | n :: rest => preorder n ++ preorderList rest

theorem preorderList_eq_flatMap (trees : List SyntaxNode) : preorder.preorderList trees = trees.flatMap preorder := by
  induction trees with
  | nil => rfl
  | cons n rest ih => rw [preorder.preorderList, ih, List.flatMap_cons]

/-- A tree has its root and the nodes of the trees below it. -/
theorem preorder_eq (n : SyntaxNode) : n.preorder = n :: n.children.flatMap preorder := by
  cases n
  rw [preorder, preorderList_eq_flatMap]

end SyntaxNode

namespace Declarations

/-! ## One node -/

/-- The text of the bytes between two positions. -/
def textBetween (bytes : List UInt8) (start stop : Int) : String :=
  Text.decodeLossy (Sequence.slice bytes start stop)

/-- The function that a node declares, if it declares one with a name. -/
def declared (path : Path) (lang : Language) (bytes : List UInt8) (n : SyntaxNode) :
    Except Fault (Option FunctionUnit) := do
  if n.kind ≠ "function_declaration" then return none
  match n.name with
  | none => return none
  | some (nameStart, nameStop) =>
    let name := Text.trim (textBetween bytes nameStart nameStop)
    if name.isEmpty then return none
    let first := (← n.startPoint.toInt) + 1
    let last := (← n.stopPoint.toInt) + 1
    return some {
      id := path.toString ++ "::" ++ name ++ ":" ++ Number.decimalInt first
      name := name
      lang := lang
      path := path
      firstLine := .int first
      lastLine := .int last
      doc := none
      text := some (textBetween bytes n.startByte n.stopByte)
      metrics := [(branchCount, .float 0)] }

/-! ## All nodes -/

/-- A walk through trees. -/
structure Walk where
  /-- The nodes that wait, the next one first. -/
  stack : List SyntaxNode
  /-- The functions that were found. -/
  found : List FunctionUnit

namespace Walk

/-- Puts nodes on a stack, the last one first, so that the first one is next. -/
def push (nodes stack : List SyntaxNode) : List SyntaxNode :=
  nodes.reverse.foldl (fun stack n => n :: stack) stack

/-- The nodes that a walk has still to visit. -/
def ahead (w : Walk) : List SyntaxNode :=
  w.stack.flatMap SyntaxNode.preorder

/-- One turn of a walk: the next node leaves the stack, its children are put there, and the function that it
declares is found. -/
def turn (path : Path) (lang : Language) (bytes : List UInt8) (w : Walk) : Except Fault Walk := do
  match w.stack with
  | [] => return w
  | n :: stack =>
    let fn? ← declared path lang bytes n
    return ⟨push n.children stack, w.found ++ fn?.toList⟩

theorem push_eq_append (nodes stack : List SyntaxNode) : push nodes stack = nodes ++ stack := by
  simp [push]

/-- The nodes ahead are the next one and those that are ahead when its children have taken its place. -/
theorem ahead_of_stack {w : Walk} {n : SyntaxNode} {stack : List SyntaxNode} (hstack : w.stack = n :: stack)
    (found : List FunctionUnit) : w.ahead = n :: ahead ⟨push n.children stack, found⟩ := by
  rw [ahead, ahead, hstack, push_eq_append, List.flatMap_cons, List.flatMap_append, SyntaxNode.preorder_eq,
    List.cons_append]

/-- A turn visits the first of the nodes ahead. -/
theorem ahead_of_turn {path : Path} {lang : Language} {bytes : List UInt8} {w next : Walk} {n : SyntaxNode}
    {stack : List SyntaxNode} (hstack : w.stack = n :: stack) (h : w.turn path lang bytes = .ok next) :
    w.ahead = n :: next.ahead := by
  rw [turn, hstack] at h
  cases hdeclared : declared path lang bytes n with
  | error e => simp [hdeclared, bind, Except.bind] at h
  | ok fn? =>
    simp only [hdeclared, bind, Except.bind, pure, Except.pure, Except.ok.injEq] at h
    rw [← h]
    exact ahead_of_stack hstack _

/-- All turns of a walk, until no node waits. -/
def run (path : Path) (lang : Language) (bytes : List UInt8) (w : Walk) : Except Fault (List FunctionUnit) :=
  match _hstack : w.stack with
  | [] => .ok w.found
  | _ :: _ =>
    match _hturn : w.turn path lang bytes with
    | .ok next => next.run path lang bytes
    | .error e => .error e
termination_by w.ahead.length
decreasing_by simp [ahead_of_turn _hstack _hturn]

end Walk

/-- The functions that a tree declares, outer ones first. One that cannot be placed makes all of them
unknown. -/
def functionsOf (path : Path) (lang : Language) (bytes : List UInt8) (tree : SyntaxNode) :
    List FunctionUnit :=
  match Walk.run path lang bytes ⟨[tree], []⟩ with
  | .ok found => found
  | .error _ => []

/-- **The functions of a source text**; without a tree none are known. -/
def outline (path : Path) (lang : Language) (source : String) (tree : Option SyntaxNode) : ModuleUnit :=
  ⟨path, lang, (tree.map (functionsOf path lang (Text.encode source))).getD []⟩

end Declarations

end CodeAudit
