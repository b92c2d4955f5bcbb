import CodeAudit.Dependency.Graph
import CodeAudit.Proofs.Sequence

/-!
# Edges and cycles of dependency graphs

## Main definitions

* `Graph.WellFormed` — nothing is listed twice, and the ends of edges are nodes.

## Main results

* `Graph.eq_zero_of_mem_fanIn` — a node to which no edge leads has no fan-in.
* `Graph.cycles_eq_nil` — if no edge goes on where another ends, there are no cycles.
-/

namespace CodeAudit.Graph

open List Sequence

variable {g : Graph}

variable {d e : String × String} {edges : List (String × String)} {start : String}

/-! ## Edges -/

@[simp] lemma edges_addNode (g : Graph) (n : String) : (g.addNode n).edges = g.edges := by
  unfold addNode
  split_ifs <;> rfl

/-- Adding an edge adds that edge. -/
lemma mem_edges_addEdge : e ∈ (g.addEdge d).edges ↔ e ∈ g.edges ∨ e = d := by
  unfold addEdge
  simp only [edges_addNode]
  split_ifs with hd
  · simp only [edges_addNode]
    constructor
    · exact .inl
    · rintro (he | rfl)
      · exact he
      · exact hd
  · simp

/-- Adding edges one after another adds those edges. -/
lemma mem_edges_foldl : e ∈ (edges.foldl addEdge g).edges ↔ e ∈ g.edges ∨ e ∈ edges := by
  induction edges generalizing g with
  | nil => simp
  | cons d edges ih => rw [foldl_cons, ih, mem_edges_addEdge, mem_cons, or_assoc]

/-- An edge is kept without the blanks at the ends of its names, if both are there and differ. -/
lemma cleanEdge?_eq_some_iff :
    cleanEdge? d = some e ↔ Text.trim d.1 = e.1 ∧ Text.trim d.2 = e.2 ∧ e.1 ≠ "" ∧ e.2 ≠ "" ∧ e.1 ≠ e.2 := by
  obtain ⟨s, t⟩ := e
  unfold cleanEdge?
  simp only
  split_ifs with hout
  · simp only [Bool.or_eq_true, String.isEmpty_iff, beq_iff_eq] at hout
    simp only [false_iff]
    rintro ⟨rfl, rfl, hs, ht, hne⟩
    rcases hout with (h | h) | h
    · exact hs h
    · exact ht h
    · exact hne h
  · simp only [Bool.or_eq_true, String.isEmpty_iff, beq_iff_eq, not_or] at hout
    simp only [Option.some.injEq, Prod.mk.injEq]
    constructor
    · rintro ⟨rfl, rfl⟩
      exact ⟨rfl, rfl, hout.1.1, hout.1.2, hout.2⟩
    · rintro ⟨rfl, rfl, -⟩
      exact ⟨rfl, rfl⟩

/-- **The edges of a graph are the cleaned edges of the list.** -/
lemma mem_edges_ofEdges : e ∈ (ofEdges edges).edges ↔ ∃ d ∈ edges, cleanEdge? d = some e := by
  unfold ofEdges
  rw [mem_edges_foldl, mem_filterMap]
  simp [empty]

/-- **A node to which no edge leads has no fan-in.** -/
lemma eq_zero_of_mem_fanIn {n : String} (h : ∀ s, (s, n) ∉ g.edges) {k : ℕ} (hk : (n, k) ∈ g.fanIn) : k = 0 := by
  obtain ⟨m, -, hm⟩ := mem_map.mp hk
  obtain ⟨rfl, rfl⟩ := Prod.mk.inj hm
  rw [countP_eq_zero]
  rintro ⟨s, t⟩ he ht
  obtain rfl : t = m := by simpa using ht
  exact h s he

/-! ## The order in which nodes and edges are first seen -/

/-- Adding a node that may have been seen before. -/
lemma nodes_addNode {seen : List String} (h : g.nodes = seen.eraseDups) (n : String) :
    (g.addNode n).nodes = (seen ++ [n]).eraseDups := by
  have hmem : n ∈ g.nodes ↔ n ∈ seen := by rw [h, mem_eraseDups]
  rw [eraseDups_concat, addNode]
  by_cases hn : n ∈ seen
  · rw [if_pos (hmem.mpr hn), if_pos hn, h]
  · rw [if_neg (mt hmem.mp hn), if_neg hn, h]

/-- The names at the ends of edges, one edge after another. -/
def namesOf (edges : List (String × String)) : List String :=
  edges.flatMap fun e => [e.1, e.2]

/-- **Edges added one after another** give the nodes and the edges in the order in which they are first seen. -/
lemma foldl_addEdge (edges : List (String × String)) :
    (edges.foldl addEdge empty).nodes = (namesOf edges).eraseDups ∧
      (edges.foldl addEdge empty).edges = edges.eraseDups := by
  induction edges using reverseRecOn with
  | nil => simp [namesOf, empty]
  | append_singleton edges e ih =>
    obtain ⟨hnodes, hedges⟩ := ih
    set g := edges.foldl addEdge empty with hg
    have hends : ((g.addNode e.1).addNode e.2).nodes = (namesOf (edges ++ [e])).eraseDups := by
      rw [nodes_addNode (nodes_addNode hnodes e.1) e.2, append_assoc]
      simp [namesOf]
    have hmem : e ∈ ((g.addNode e.1).addNode e.2).edges ↔ e ∈ edges := by
      rw [edges_addNode, edges_addNode, hedges, mem_eraseDups]
    rw [foldl_append, foldl_cons, foldl_nil, ← hg, eraseDups_concat, addEdge]
    by_cases he : e ∈ edges
    · rw [if_pos (hmem.mpr he), if_pos he, edges_addNode, edges_addNode]
      exact ⟨hends, hedges⟩
    · rw [if_neg (mt hmem.mp he), if_neg he, edges_addNode, edges_addNode, hedges]
      exact ⟨hends, rfl⟩

/-- **The nodes of a graph** are the different names at the ends of the cleaned edges, in the order in which they are
first seen. -/
lemma nodes_ofEdges (edges : List (String × String)) :
    (ofEdges edges).nodes = (namesOf (edges.filterMap cleanEdge?)).eraseDups :=
  (foldl_addEdge _).1

/-- **The edges of a graph** are the different cleaned edges, in the order in which they are first seen. -/
lemma edges_ofEdges (edges : List (String × String)) :
    (ofEdges edges).edges = (edges.filterMap cleanEdge?).eraseDups :=
  (foldl_addEdge _).2

/-- A graph in which nothing is listed twice and the ends of edges are nodes. -/
structure WellFormed (g : Graph) : Prop where
  nodes : g.nodes.Nodup
  edges : g.edges.Nodup
  source : ∀ e ∈ g.edges, e.1 ∈ g.nodes
  target : ∀ e ∈ g.edges, e.2 ∈ g.nodes

/-- **The graph of a list of edges is well-formed.** -/
lemma wellFormed_ofEdges (edges : List (String × String)) : (ofEdges edges).WellFormed where
  nodes := nodes_ofEdges edges ▸ nodup_eraseDups _
  edges := edges_ofEdges edges ▸ nodup_eraseDups _
  source e he := by
    rw [edges_ofEdges, mem_eraseDups] at he
    rw [nodes_ofEdges, mem_eraseDups]
    exact mem_flatMap.mpr ⟨e, he, by simp⟩
  target e he := by
    rw [edges_ofEdges, mem_eraseDups] at he
    rw [nodes_ofEdges, mem_eraseDups]
    exact mem_flatMap.mpr ⟨e, he, by simp⟩

/-! ## Edges source by source, and degrees -/

/-- The edges, source by source. -/
lemma groupedEdges_eq (g : Graph) : g.groupedEdges = g.nodes.flatMap fun n => g.edges.filter (·.1 == n) := by
  refine flatMap_congr fun n _ => ?_
  rw [successors, map_map]
  refine (map_congr_left fun e he => ?_).trans (map_id _)
  obtain rfl : e.1 = n := by simpa using (mem_filter.mp he).2
  rfl

/-- Source by source, all edges are listed, each of them once. -/
lemma groupedEdges_perm (h : g.WellFormed) : g.groupedEdges.Perm g.edges := by
  rw [groupedEdges_eq]
  exact perm_flatMap_filter h.nodes Prod.fst h.source

/-- The numbers of edges that have the nodes at one of their ends add up to the number of edges. -/
lemma sum_countP_nodes (h : g.WellFormed) {side : String × String → String} (hside : ∀ e ∈ g.edges, side e ∈ g.nodes) :
    ((g.nodes.map fun n => (n, g.edges.countP (side · == n))).map (·.2)).sum = g.edges.length := by
  rw [← (perm_flatMap_filter h.nodes side hside).length_eq, length_flatMap, map_map]
  simp only [Function.comp_def, countP_eq_length_filter]

/-- **The numbers of edges into the nodes add up to the number of edges.** -/
lemma sum_fanIn (h : g.WellFormed) : (g.fanIn.map (·.2)).sum = g.edges.length :=
  sum_countP_nodes h h.target

lemma sum_fanOut (h : g.WellFormed) : (g.fanOut.map (·.2)).sum = g.edges.length :=
  sum_countP_nodes h h.source

/-! ## Cycles -/

/-- No cycle begins at a node to which no edge leads. -/
lemma cyclesFrom_eq_nil (h : ∀ s, (s, start) ∉ g.edges) (allowed : List String) (depth : ℕ)
    (path : List String) (last : String) : g.cyclesFrom start allowed depth path last = [] := by
  induction depth generalizing path last with
  | zero => rw [cyclesFrom, if_neg (h last)]
  | succ depth ih =>
    rw [cyclesFrom, if_neg (h last), nil_append, flatMap_eq_nil_iff]
    exact fun n _ => ih (n :: path) n

/-- No cycle begins at a node from which no edge leads. -/
lemma cyclesFrom_self_eq_nil (h : ∀ t, (start, t) ∉ g.edges) (allowed : List String) (depth : ℕ)
    (path : List String) : g.cyclesFrom start allowed depth path start = [] := by
  have hnone : g.successors start = [] := by
    unfold successors
    rw [map_eq_nil_iff, filter_eq_nil_iff]
    rintro ⟨s, t⟩ he hs
    obtain rfl : s = start := by simpa using hs
    exact h t he
  cases depth with
  | zero => rw [cyclesFrom, if_neg (h start)]
  | succ depth =>
    rw [cyclesFrom, if_neg (h start), hnone]
    simp [sortNames]

/-- **If no edge goes on where another ends, there are no cycles.** -/
lemma cycles_eq_nil (h : ∀ d ∈ g.edges, ∀ e ∈ g.edges, d.2 ≠ e.1) : g.cycles = [] := by
  unfold cycles
  rw [flatMap_eq_nil_iff]
  intro n _
  by_cases hinto : ∃ s, (s, n) ∈ g.edges
  · obtain ⟨s, hs⟩ := hinto
    exact cyclesFrom_self_eq_nil (fun t ht => h _ hs _ ht rfl) _ _ _
  · exact cyclesFrom_eq_nil (fun s hs => hinto ⟨s, hs⟩) _ _ _ _

end CodeAudit.Graph
