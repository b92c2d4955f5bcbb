import CodeAudit.Proofs.Dependency.Graph

/-!
# Degrees of dependency graphs

A graph is built edge by edge: names lose their blanks, some edges are left out, and edges that agree from then on count
once. What is told of the degrees in the end depends on the set of the edges that are left and on nothing else.

## Main definitions

* `Graph.links` — the different edges that are left of a list.
* `Graph.linkedAcross` — the names to which links join a name.

## Main results

* `Graph.countP_edges_eq_card` — the number of edges at a node is the number of names that they join to it.
* `Graph.degrees_count_links` — what is told of the degrees.
-/

namespace CodeAudit.Graph

open List

variable {edges : List (String × String)} {n : String}

/-! ## Links -/

/-- **The links of a list of edges**: names lose the blanks at their ends, and what is left of an edge must have two
names that differ. -/
def links (edges : List (String × String)) : Finset (String × String) :=
  (edges.map fun e => (Text.trim e.1, Text.trim e.2)).toFinset.filter fun e => e.1 ≠ "" ∧ e.2 ≠ "" ∧ e.1 ≠ e.2

/-- The names at the ends of links. -/
def linked (edges : List (String × String)) : Finset String :=
  (links edges).image Prod.fst ∪ (links edges).image Prod.snd

/-- The names at the ends `far` of those links whose ends `near` have a given name. -/
def linkedAcross (near far : String × String → String) (edges : List (String × String)) (n : String) : Finset String :=
  ((links edges).filter (near · = n)).image far

lemma mem_links_iff {e : String × String} : e ∈ links edges ↔ ∃ d ∈ edges, cleanEdge? d = some e := by
  simp only [links, Finset.mem_filter, mem_toFinset, mem_map, cleanEdge?_eq_some_iff]
  constructor
  · rintro ⟨⟨d, hd, rfl⟩, hkept⟩
    exact ⟨d, hd, rfl, rfl, hkept⟩
  · rintro ⟨d, hd, hsource, htarget, hkept⟩
    exact ⟨⟨d, hd, Prod.ext hsource htarget⟩, hkept⟩

/-- Links do not depend on the order of edges, or on how often one is listed. -/
lemma links_congr {edges' : List (String × String)} (h : ∀ e, e ∈ edges' ↔ e ∈ edges) :
    links edges' = links edges := by
  ext e
  simp only [mem_links_iff, h]

/-- **The edges of a graph are the links.** -/
lemma toFinset_edges_ofEdges (edges : List (String × String)) : (ofEdges edges).edges.toFinset = links edges := by
  ext e
  rw [mem_toFinset, mem_edges_ofEdges, mem_links_iff]

lemma mem_nodes_iff : n ∈ (ofEdges edges).nodes ↔ ∃ e ∈ links edges, n = e.1 ∨ n = e.2 := by
  rw [nodes_ofEdges, mem_eraseDups, namesOf, mem_flatMap]
  simp only [mem_filterMap, ← mem_links_iff, mem_cons, not_mem_nil, or_false]

/-- **The nodes of a graph are the ends of links.** -/
lemma toFinset_nodes_ofEdges (edges : List (String × String)) : (ofEdges edges).nodes.toFinset = linked edges := by
  ext n
  rw [mem_toFinset, mem_nodes_iff, linked, Finset.mem_union, Finset.mem_image, Finset.mem_image]
  constructor
  · rintro ⟨e, he, rfl | rfl⟩
    · exact .inl ⟨e, he, rfl⟩
    · exact .inr ⟨e, he, rfl⟩
  · rintro (⟨e, he, rfl⟩ | ⟨e, he, rfl⟩)
    · exact ⟨e, he, .inl rfl⟩
    · exact ⟨e, he, .inr rfl⟩

/-! ## Degrees -/

section Degree

variable {near far : String × String → String}

/-- **The number of edges at a node is the number of names that they join to it**, since an edge is told by its ends. -/
lemma countP_edges_eq_card (hends : ∀ d e, near d = near e → far d = far e → d = e) (edges : List (String × String))
    (n : String) : (ofEdges edges).edges.countP (near · == n) = (linkedAcross near far edges n).card := by
  have hnodup : ((ofEdges edges).edges.filter (near · == n)).Nodup := (wellFormed_ofEdges edges).edges.filter _
  have hfilter : ((ofEdges edges).edges.filter (near · == n)).toFinset = (links edges).filter (near · = n) := by
    rw [toFinset_filter, toFinset_edges_ofEdges]
    simp
  have hinjective : Set.InjOn far ((links edges).filter (near · = n)) := by
    intro d hd e he hfar
    rw [Finset.mem_coe, Finset.mem_filter] at hd he
    exact hends d e (hd.2.trans he.2.symm) hfar
  rw [countP_eq_length_filter, ← toFinset_card_of_nodup hnodup, hfilter, linkedAcross,
    Finset.card_image_of_injOn hinjective]

/-- What is found under a name among numbers that are told of the nodes. -/
lemma lookup_map_nodes (edges : List (String × String)) (degree : String → ℕ) (n : String) :
    ((ofEdges edges).nodes.map fun m => (m, degree m)).lookup n =
      if n ∈ linked edges then some (degree n) else none := by
  have hmem : n ∈ linked edges ↔ n ∈ (ofEdges edges).nodes := by
    rw [← toFinset_nodes_ofEdges, mem_toFinset]
  split_ifs with hn
  · exact lookup_graph degree (hmem.mp hn)
  · rw [Sequence.lookup_eq_none_iff_not_mem, map_map]
    simpa [Function.comp_def] using mt hmem.mpr hn

/-- **What is found under a name among the degrees.** -/
lemma lookup_degrees (hends : ∀ d e, near d = near e → far d = far e → d = e) (edges : List (String × String))
    (n : String) :
    ((ofEdges edges).nodes.map fun m => (m, (ofEdges edges).edges.countP (near · == m))).lookup n =
      if n ∈ linked edges then some (linkedAcross near far edges n).card else none := by
  rw [lookup_map_nodes, countP_edges_eq_card hends]

end Degree

lemma lookup_fanIn (edges : List (String × String)) (n : String) :
    (ofEdges edges).metrics.fanIn.lookup n =
      if n ∈ linked edges then some (linkedAcross Prod.snd Prod.fst edges n).card else none :=
  lookup_degrees (fun _ _ htarget hsource => Prod.ext hsource htarget) edges n

lemma lookup_fanOut (edges : List (String × String)) (n : String) :
    (ofEdges edges).metrics.fanOut.lookup n =
      if n ∈ linked edges then some (linkedAcross Prod.fst Prod.snd edges n).card else none :=
  lookup_degrees (fun _ _ hsource htarget => Prod.ext hsource htarget) edges n

/-- The degrees are told of the nodes, in their order. -/
lemma map_fst_fanIn (g : Graph) : g.metrics.fanIn.map Prod.fst = g.nodes := by
  simp [metrics, fanIn, Function.comp_def]

lemma map_fst_fanOut (g : Graph) : g.metrics.fanOut.map Prod.fst = g.nodes := by
  simp [metrics, fanOut, Function.comp_def]

/-- A node is an end of some edge. -/
lemma one_le_fanIn_add_fanOut {i o : ℕ}
    (hin : (n, i) ∈ (ofEdges edges).metrics.fanIn) (hout : (n, o) ∈ (ofEdges edges).metrics.fanOut) : 1 ≤ i + o := by
  obtain ⟨m, hm, heq⟩ := mem_map.mp hin
  obtain ⟨rfl, rfl⟩ := Prod.mk.inj heq
  obtain ⟨m', -, heq'⟩ := mem_map.mp hout
  obtain ⟨rfl, rfl⟩ := Prod.mk.inj heq'
  obtain ⟨e, he, hend⟩ := mem_nodes_iff.mp hm
  rw [← toFinset_edges_ofEdges, mem_toFinset] at he
  rcases hend with rfl | rfl
  · have hpos : 0 < (ofEdges edges).edges.countP (·.1 == e.1) := countP_pos_iff.mpr ⟨e, he, by simp⟩
    omega
  · have hpos : 0 < (ofEdges edges).edges.countP (·.2 == e.2) := countP_pos_iff.mpr ⟨e, he, by simp⟩
    omega

lemma length_edges_eq_card (edges : List (String × String)) : (ofEdges edges).edges.length = (links edges).card := by
  rw [← toFinset_edges_ofEdges, toFinset_card_of_nodup (wellFormed_ofEdges edges).edges]

/-- **What is told of the degrees.** Fan-in and fan-out are told of the same names, each of them once: the ends of links.
The fan-in of a name is the number of the sources of links to it, and its fan-out the number of the targets of links from
it; one of them is not zero. The fan-ins, and likewise the fan-outs, add up to the number of links. Edges in another order,
or listed another number of times, give the same numbers under the same names.

**Proof sketch.** The fold leaves each link once and each end of a link once (`foldl_addEdge`), so both are sets that the
links determine. An edge is told by its two ends, so the edges at a node are counted by their other ends
(`countP_edges_eq_card`). -/
theorem degrees_count_links (edges : List (String × String)) :
    (ofEdges edges).metrics.fanIn.map Prod.fst = (ofEdges edges).metrics.fanOut.map Prod.fst ∧
      ((ofEdges edges).metrics.fanIn.map Prod.fst).Nodup ∧
      ((ofEdges edges).metrics.fanIn.map Prod.fst).toFinset = linked edges ∧
      (∀ n, (ofEdges edges).metrics.fanIn.lookup n =
        if n ∈ linked edges then some (linkedAcross Prod.snd Prod.fst edges n).card else none) ∧
      (∀ n, (ofEdges edges).metrics.fanOut.lookup n =
        if n ∈ linked edges then some (linkedAcross Prod.fst Prod.snd edges n).card else none) ∧
      (∀ n i o, (n, i) ∈ (ofEdges edges).metrics.fanIn → (n, o) ∈ (ofEdges edges).metrics.fanOut → 1 ≤ i + o) ∧
      ((ofEdges edges).metrics.fanIn.map Prod.snd).sum = (links edges).card ∧
      ((ofEdges edges).metrics.fanOut.map Prod.snd).sum = (links edges).card ∧
      ∀ edges', (∀ e, e ∈ edges' ↔ e ∈ edges) → ∀ n,
        (ofEdges edges').metrics.fanIn.lookup n = (ofEdges edges).metrics.fanIn.lookup n ∧
          (ofEdges edges').metrics.fanOut.lookup n = (ofEdges edges).metrics.fanOut.lookup n := by
  have hwell := wellFormed_ofEdges edges
  refine ⟨by rw [map_fst_fanIn, map_fst_fanOut], by rw [map_fst_fanIn]; exact hwell.nodes,
    by rw [map_fst_fanIn, toFinset_nodes_ofEdges], lookup_fanIn edges, lookup_fanOut edges,
    fun _ _ _ => one_le_fanIn_add_fanOut, ?_, ?_, ?_⟩
  · rw [← length_edges_eq_card]
    exact sum_fanIn hwell
  · rw [← length_edges_eq_card]
    exact sum_fanOut hwell
  · intro edges' h n
    rw [lookup_fanIn, lookup_fanIn, lookup_fanOut, lookup_fanOut]
    unfold linked linkedAcross
    rw [links_congr h]
    exact ⟨rfl, rfl⟩

/-- Edges with blanks around names, a copy, a loop and an edge without a source. -/
def spaced : List (String × String) :=
  [(" a", "b"), ("a", "b\t"), ("a", "c"), ("c", "c "), (" ", "b"), ("b", "a")]

/-- Of six edges three links are left, and the order of the edges does not matter. -/
theorem degrees_spaced :
    (ofEdges spaced).metrics.fanIn = [("a", 1), ("b", 1), ("c", 1)] ∧
      (ofEdges spaced).metrics.fanOut = [("a", 2), ("b", 1), ("c", 0)] ∧ (links spaced).card = 3 ∧ 1 ≤ 1 + 0 ∧
      (ofEdges spaced.reverse).metrics.fanOut.lookup "a" = some 2 := by
  have hin : (ofEdges spaced).metrics.fanIn = [("a", 1), ("b", 1), ("c", 1)] := by decide +kernel
  have hout : (ofEdges spaced).metrics.fanOut = [("a", 2), ("b", 1), ("c", 0)] := by decide +kernel
  obtain ⟨-, -, -, -, -, hpos, hsum, -, hsame⟩ := degrees_count_links spaced
  refine ⟨hin, hout, ?_, hpos "c" 1 0 (by simp [hin]) (by simp [hout]), ?_⟩
  · rw [← hsum, hin]
    rfl
  · rw [(hsame spaced.reverse (fun e => List.mem_reverse) "a").2, hout]
    rfl

end CodeAudit.Graph
