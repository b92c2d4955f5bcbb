import CodeAudit.Json.Writer
import CodeAudit.Text.Blank

/-!
# Dependency graphs

A dependency graph keeps its nodes in the order in which they are first seen, and each edge once.

## Main definitions

* `Graph`, `Graph.ofEdges` — graphs, and the graph of a list of edges.
* `Metrics`, `Graph.metrics` — what is reported of a graph.
-/

namespace CodeAudit

/-- A directed graph. -/
structure Graph where
  /-- The nodes, in the order in which they are first seen. -/
  nodes : List String
  /-- The edges, in the order in which they are first seen. -/
  edges : List (String × String)

namespace Graph

/-- The graph without nodes. -/
def empty : Graph := ⟨[], []⟩

/-- Adds a node unless it is there. -/
def addNode (g : Graph) (n : String) : Graph :=
  if n ∈ g.nodes then g else { g with nodes := g.nodes ++ [n] }

/-- Adds an edge and its ends unless they are there. -/
def addEdge (g : Graph) (e : String × String) : Graph :=
  let g := (g.addNode e.1).addNode e.2
  if e ∈ g.edges then g else { g with edges := g.edges ++ [e] }

/-- An edge without the blanks at the ends of its names, unless a name is empty or both are equal. -/
def cleanEdge? (e : String × String) : Option (String × String) :=
  let source := Text.trim e.1
  let target := Text.trim e.2
  if source.isEmpty || target.isEmpty || source == target then none else some (source, target)

/-- **The graph of a list of edges**, which are cleaned first. -/
def ofEdges (edges : List (String × String)) : Graph :=
  (edges.filterMap cleanEdge?).foldl addEdge empty

/-- The nodes to which edges lead from a node. -/
def successors (g : Graph) (n : String) : List String :=
  (g.edges.filter (·.1 == n)).map (·.2)

/-- The edges, source by source in the order of the nodes. -/
def groupedEdges (g : Graph) : List (String × String) :=
  g.nodes.flatMap fun n => (g.successors n).map (n, ·)

/-- The number of edges into each node. -/
def fanIn (g : Graph) : List (String × Nat) :=
  g.nodes.map fun n => (n, g.edges.countP (·.2 == n))

/-- The number of edges out of each node. -/
def fanOut (g : Graph) : List (String × Nat) :=
  g.nodes.map fun n => (n, g.edges.countP (·.1 == n))

/-! ## Cycles -/

/-- Names in order. -/
def sortNames (names : List String) : List String :=
  names.mergeSort fun a b => !(b < a)

/-- The nodes above `start` with an edge to `start` or to one of `known`. -/
def leadingTo (g : Graph) (start : String) (known : List String) : List String :=
  g.nodes.filter fun n => start < n && (g.successors n).any fun m => m == start || known.contains m

/-- The nodes from which a path over nodes above `start` leads to `start`. -/
def returning (g : Graph) (start : String) : (rounds : Nat) → (known : List String) → List String
  | 0, known => known
  | rounds + 1, known =>
    let more := g.leadingTo start known
    if more.length = known.length then known else returning g start rounds more

/-- The cycles that begin with a path from `start` to `last` and go on over some nodes. `path` holds the
nodes of the path, last one first. At most `depth` nodes are added. -/
def cyclesFrom (g : Graph) (start : String) (allowed : List String) :
    (depth : Nat) → (path : List String) → (last : String) → List (List String)
  | 0, path, last => if (last, start) ∈ g.edges then [path.reverse] else []
  | depth + 1, path, last =>
    let next := (sortNames (g.successors last)).filter fun n => allowed.contains n && !path.contains n
    (if (last, start) ∈ g.edges then [path.reverse] else []) ++
      next.flatMap fun n => cyclesFrom g start allowed depth (n :: path) n

/-- **The elementary cycles**: each begins with its least node, and they come in the order of their
nodes. -/
def cycles (g : Graph) : List (List String) :=
  (sortNames g.nodes).flatMap fun n =>
    g.cyclesFrom n (g.returning n g.nodes.length []) g.nodes.length [n] n

end Graph

/-! ## Metrics -/

/-- What is reported of a dependency graph. -/
structure Metrics where
  fanIn : List (String × Nat)
  fanOut : List (String × Nat)
  cycles : List (List String)
  topFanIn : List (String × Nat)
  topFanOut : List (String × Nat)

namespace Graph

/-- The ten nodes with the greatest numbers, greatest first; equal ones keep their order. -/
def top (counts : List (String × Nat)) : List (String × Nat) :=
  (counts.mergeSort fun a b => b.2 ≤ a.2).take 10

/-- **What is reported of a graph**: at most ten cycles, of each at most eight nodes. -/
def metrics (g : Graph) : Metrics where
  fanIn := g.fanIn
  fanOut := g.fanOut
  cycles := (g.cycles.take 10).map (·.take 8)
  topFanIn := top g.fanIn
  topFanOut := top g.fanOut

/-- A graph as a value: its nodes, then its edges source by source. -/
def toDatum (g : Graph) : Datum :=
  .object
    [("nodes", .list (g.nodes.map fun n => .object [("id", .text n)])),
      ("edges", .list (g.groupedEdges.map fun (s, t) => .object [("source", .text s), ("target", .text t)]))]

/-- A graph as a text. -/
def toJson (g : Graph) : String :=
  Json.pretty g.toDatum

end Graph

namespace Metrics

/-- Counts as a dictionary. -/
def countsDatum (counts : List (String × Nat)) : Datum :=
  .object (counts.map fun (n, k) => (n, .int k))

/-- Counts as a list of pairs. -/
def pairsDatum (counts : List (String × Nat)) : Datum :=
  .list (counts.map fun (n, k) => .tuple [.text n, .int k])

/-- Metrics as a value. -/
def toDatum (m : Metrics) : Datum :=
  .object
    [("fan_in", countsDatum m.fanIn), ("fan_out", countsDatum m.fanOut),
      ("cycles", .list (m.cycles.map fun c => .list (c.map .text))),
      ("top_fan_in", pairsDatum m.topFanIn), ("top_fan_out", pairsDatum m.topFanOut)]

end Metrics

end CodeAudit
