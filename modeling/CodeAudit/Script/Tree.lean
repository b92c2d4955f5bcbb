/-!
# Syntax trees of Python source

A program is a tree of nodes. A node has a shape (what construct it is, with its names), the part it
plays in its parent, the extent of source that it covers, and its children in the order of the
language's abstract grammar. Analyses only ever ask for shapes, parts and walks, so one node type serves
statements, expressions and patterns alike.

## Main definitions

* `Node` — syntax trees, with `Node.children` as the one view of their structure.
* `Node.levelOrder` — all nodes of one depth before those of the next.
-/

namespace CodeAudit.Script

/-- A place in a source text: lines count from 1, columns count bytes of UTF-8 from 0. -/
structure Pos where
  line : Nat
  column : Nat
deriving DecidableEq, Inhabited

/-- The stretch of source from the first character of a construct to behind its last. -/
structure Extent where
  start : Pos
  stop : Pos
deriving DecidableEq, Inhabited

/-- A source text that is no program, with the line where reading stopped. -/
structure SyntaxFault where
  line : Nat
deriving DecidableEq

/-- The text of the report on a source that is no program. -/
def SyntaxFault.message (fault : SyntaxFault) : String :=
  "invalid syntax (<unknown>, line " ++ toString fault.line ++ ")"

/-- A constant that stands in the source. -/
inductive Constant
  | none
  | true
  | false
  | ellipsis
  | number
  | bytes
  | text (value : String)
deriving DecidableEq

/-- The part that a node plays in its parent. -/
inductive Part
  /-- A statement of the main body. -/
  | body
  /-- The expression that a call calls. -/
  | callee
  /-- A positional argument of a call. -/
  | argument
  /-- A named argument, or one spread from a mapping. -/
  | keyword
  /-- The value that an expression, statement or keyword is about. -/
  | value
  /-- Any other part. -/
  | piece
deriving DecidableEq

/-- The construct that a node is, with the names that belong to it. -/
inductive Shape
  | module
  | functionDef (name : String)
  | asyncFunctionDef (name : String)
  | classDef (name : String)
  | returnStmt
  | delete
  | assign
  | augAssign (operator : String)
  | annAssign
  | forLoop
  | asyncFor
  | whileLoop
  | ifStmt
  | withStmt
  | asyncWith
  | matchStmt
  | raiseStmt
  | tryStmt
  | tryStar
  | assertStmt
  | importStmt
  | importFrom (source : Option String) (level : Nat)
  | globalStmt
  | nonlocalStmt
  | expression
  | passStmt
  | breakStmt
  | continueStmt
  | boolOp
  | namedExpr
  | binOp
  | unaryOp
  | lambda
  | ifExp
  | dict
  | set
  | listComp
  | setComp
  | dictComp
  | generatorExp
  | await
  | yield
  | yieldFrom
  | compare
  | call
  | formattedValue
  | joinedStr
  | constant (value : Constant)
  | attribute (name : String)
  | subscript
  | starred
  | name (id : String)
  | list
  | tuple
  | slice
  | comprehension
  | exceptHandler
  | arguments
  | arg (name : String)
  | keyword (name : Option String)
  | alias (name : String)
  | withItem
  | matchCase
  | matchValue
  | matchSingleton
  | matchSequence
  | matchMapping
  | matchClass
  | matchStar
  | matchAs
  | matchOr
deriving DecidableEq

/-- **Syntax trees.** -/
inductive Node where
  | mk (part : Part) (shape : Shape) (extent : Extent) (children : List Node)

namespace Node

/-- The part that the node plays in its parent. -/
def part : Node → Part
  | mk part _ _ _ => part

/-- The construct that the node is. -/
def shape : Node → Shape
  | mk _ shape _ _ => shape

/-- The stretch of source that the node covers. -/
def extent : Node → Extent
  | mk _ _ extent _ => extent

/-- The children in grammar order. -/
def children : Node → List Node
  | mk _ _ _ children => children

variable (n : Node)

/-- The first line of the node. -/
def firstLine : Nat :=
  n.extent.start.line

/-- The last line of the node. -/
def lastLine : Nat :=
  n.extent.stop.line

/-- The same node in another part. -/
def asPart (p : Part) : Node → Node
  | mk _ shape extent children => mk p shape extent children

/-- The children that play the given part. -/
def parts (p : Part) : List Node :=
  n.children.filter (·.part = p)

/-- The statements of the main body. -/
def body : List Node :=
  n.parts .body

/-! ## Walks -/

/-- The number of nodes of a tree. -/
def size : Node → Nat
  | mk _ _ _ children => 1 + sizeList children
where
  /-- The number of nodes of a list of trees. -/
  sizeList : List Node → Nat
    | [] => 0
    | n :: rest => size n + sizeList rest

/-- The nodes of a tree, each before its children. -/
def preorder : Node → List Node
  | mk part shape extent children => mk part shape extent children :: preorderList children
where
  /-- The nodes of a list of trees, tree by tree. -/
  preorderList : List Node → List Node
    | [] => []
    | n :: rest => preorder n ++ preorderList rest

theorem sizeList_append (xs ys : List Node) :
    size.sizeList (xs ++ ys) = size.sizeList xs + size.sizeList ys := by
  induction xs with
  | nil => simp [size.sizeList]
  | cons n rest ih => simp [size.sizeList, ih, Nat.add_assoc]

/-- The children of a row of trees, from left to right. -/
def offspring (row : List Node) : List Node :=
  row.flatMap children

/-- Going one level down drops the row itself and nothing else. -/
theorem sizeList_offspring (row : List Node) :
    size.sizeList (offspring row) + row.length = size.sizeList row := by
  induction row with
  | nil => rfl
  | cons n rest ih =>
    cases n with
    | mk p s e cs =>
      simp only [offspring, List.flatMap_cons, sizeList_append, children, size.sizeList, size,
        List.length_cons] at ih ⊢
      omega

/-- The nodes of a row of trees, level by level. -/
def levels (row : List Node) : List Node :=
  match row with
  | [] => []
  | n :: rest => n :: rest ++ levels (offspring (n :: rest))
termination_by size.sizeList row
decreasing_by
  have h := sizeList_offspring (n :: rest)
  simp only [List.length_cons] at h
  omega

/-- **Breadth-first walk**: all nodes of one depth, from left to right, before those of the next. -/
def levelOrder : List Node :=
  levels [n]

/-- Whether the node defines a function. -/
def isFunction : Bool :=
  match n.shape with
  | .functionDef _ | .asyncFunctionDef _ => true
  | _ => false

/-- The name that a definition gives. -/
def definedName : String :=
  match n.shape with
  | .functionDef name | .asyncFunctionDef name | .classDef name => name
  | _ => ""

end Node

end CodeAudit.Script
