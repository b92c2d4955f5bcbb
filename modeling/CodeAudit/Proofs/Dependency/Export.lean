import CodeAudit.Proofs.Dependency.Cycles
import CodeAudit.Proofs.Files.Change
import CodeAudit.Proofs.Json
import CodeAudit.Proofs.Number.Exact
import CodeAudit.Proofs.Session

/-!
# The exported dependency graph

A dependency graph is written as JSON: its nodes in the order in which they are first seen, and its edges source by
source. Reading the file back gives exactly these. The outline in the report tells the number of edges by adding up
how many edges lead into each node; as long as a double can hold these numbers, it tells the number of edges in the
file.

## Main results

* `Markdown.exists_dependencyOutline` — the outline of a graph, and the number of edges that it tells.
* `Graph.exported_graph_reads_back` — reading the file back.
-/

namespace CodeAudit

open List

/-! ## The file -/

namespace Graph

/-- A graph is written with nothing but texts, lists and dictionaries. -/
lemma textual_toDatum (g : Graph) : Json.Textual g.toDatum := by
  refine .object (by simp) ?_
  simp only [forall_mem_cons, not_mem_nil, false_implies, implies_true, and_true]
  constructor
  · refine .list fun d hd => ?_
    obtain ⟨n, -, rfl⟩ := mem_map.mp hd
    exact .object (by simp) fun e he => by
      obtain rfl := mem_singleton.mp he
      exact .text n
  · refine .list fun d hd => ?_
    obtain ⟨⟨s, t⟩, -, rfl⟩ := mem_map.mp hd
    refine .object (by simp) ?_
    simp only [forall_mem_cons, not_mem_nil, false_implies, implies_true, and_true]
    exact ⟨.text s, .text t⟩

/-- **The file of a graph holds the text of the graph.** -/
lemma readBytes_exportGraph {g : Graph} {dir path : Path} {before after : Files}
    (h : (Report.exportGraph g dir).runOn before = (.ok path, after)) :
    path = dir.child "dep-graph.json" ∧ after.readBytes path = .ok (Text.encode g.toJson) := by
  unfold Report.exportGraph at h
  obtain ⟨_, made, -, h⟩ := FileTask.runOn_bind_eq_ok.mp h
  obtain ⟨_, written, hwritten, h⟩ := FileTask.runOn_bind_eq_ok.mp h
  obtain ⟨rfl, rfl⟩ : dir.child "dep-graph.json" = path ∧ written = after := by simpa using h
  exact ⟨rfl, Files.readBytes_of_write (FileTask.runOn_changing_eq_ok.mp hwritten)⟩

end Graph

/-! ## The outline -/

/-- A small integer stays itself on its way through a double. -/
lemma Lenient.anyInt_int {k : ℕ} (hk : k < 2 ^ 53) (default : ℤ) (hdefault : default.natAbs ≤ Number.greatest + 1) :
    Lenient.anyInt (.int k) (.int default) = .ok k := by
  have hgreatest : 2 ^ 53 ≤ Number.greatest := by decide +kernel
  have hfloat : Datum.toFloat (.int k) = .ok (Number.ofInt k) := Datum.intToFloat_eq_ok (by omega)
  have hdefault : Datum.toFloat (.int default) = .ok (Number.ofInt default) := Datum.intToFloat_eq_ok hdefault
  have hint : Datum.floatToInt (Number.ofInt k) = .ok k := by
    rw [Datum.floatToInt, Number.truncate_ofInt hk]
  simp only [anyInt, sequence?, hdefault, anyFloat, hfloat, instead, bind, Except.bind, hint]

namespace Markdown

/-- The number of edges is the sum of the numbers of edges into the nodes, if doubles can hold these. -/
lemma edgeCount_countsDatum {counts : List (String × ℕ)} (h : ∀ c ∈ counts, c.2 < 2 ^ 53) :
    edgeCount (Metrics.countsDatum counts) = (counts.map (·.2)).sum := by
  induction counts with
  | nil => rfl
  | cons c counts ih =>
    have hcount : count (.int c.2) = c.2 := by
      rw [count, Lenient.anyInt_int (h c mem_cons_self) 0 (Nat.zero_le _)]
      rfl
    have hrest := ih fun d hd => h d (mem_cons_of_mem _ hd)
    simp only [edgeCount, Metrics.countsDatum, Datum.object] at hrest
    simp only [edgeCount, Metrics.countsDatum, Datum.object, map_cons, foldr_cons, hrest, hcount,
      sum_cons, Nat.cast_add]

/-- What is told of the metrics of a graph: all of them. -/
lemma shownMetrics_toDatum (m : Metrics) :
    shownMetrics m.toDatum = .ok ⟨Metrics.countsDatum m.fanIn, Metrics.pairsDatum m.topFanIn,
      Metrics.pairsDatum m.topFanOut, .list (m.cycles.map fun c => .list (c.map .text))⟩ := by
  simp only [shownMetrics, Metrics.toDatum, Datum.object, Datum.entriesAs, map_cons, map_nil, bind,
    Except.bind, pure, Except.pure, Datum.lookup, Datum.equals, Metrics.countsDatum, Metrics.pairsDatum]
  simp

/-- **The outline of a graph.** It can be written if the part on hotspots can, and it begins with the numbers of nodes
and of edges. -/
lemma exists_dependencyOutline {m : Metrics} (h : ∀ c ∈ m.fanIn, c.2 < 2 ^ 53) {hotspots : Datum} {part : String}
    (hpart : hotspotPart hotspots = .ok part) :
    ∃ rest, dependencyOutline m.toDatum hotspots =
      .ok ("\n## Dependency outline\n- Graph summary:\n  - Nodes: " ++ number m.fanIn.length ++ "\n  - Edges: " ++
        number ((m.fanIn.map (·.2)).sum : ℕ) ++ "\n" ++ rest) := by
  have hnodes : (Metrics.countsDatum m.fanIn).length = .ok m.fanIn.length := by
    simp [Metrics.countsDatum, Datum.object, Datum.length]
  have hrows : ∀ counts, ∃ rows, ranking (Metrics.pairsDatum counts) = .ok rows := fun _ => ⟨_, rfl⟩
  obtain ⟨fanIn, hfanIn⟩ := hrows m.topFanIn
  obtain ⟨fanOut, hfanOut⟩ := hrows m.topFanOut
  obtain ⟨cycles, hcycles⟩ : ∃ cycles, cyclePart "Cycles" (.list (m.cycles.map fun c => .list (c.map .text))) =
      .ok cycles := by
    have hline : ∀ d ∈ (m.cycles.map fun c => Datum.list (c.map .text)).take 5, ∃ line, cycleLine d = .ok line := by
      intro d hd
      obtain ⟨c, -, rfl⟩ := mem_map.mp (mem_of_mem_take hd)
      exact ⟨_, rfl⟩
    obtain ⟨lines, hlines⟩ := Outcome.exists_mapM hline
    unfold cyclePart
    split_ifs
    · exact ⟨_, rfl⟩
    · simp only [Datum.length, Datum.items, hlines, bind, Except.bind]
      exact ⟨_, rfl⟩
  rw [dependencyOutline, shownMetrics_toDatum]
  simp only [bind, Except.bind, hnodes, hfanIn, hfanOut, hcycles, hpart, edgeCount_countsDatum h]
  refine ⟨"- Top fan-in modules:\n" ++ fanIn ++ "- Top fan-out modules:\n" ++ fanOut ++ cycles ++ part, ?_⟩
  rw [show "\n- Top fan-in modules:\n" = "\n" ++ "- Top fan-in modules:\n" from rfl]
  simp only [String.append_assoc]
  rfl

end Markdown

/-! ## Reading back -/

namespace Graph

/-- **Reading the exported graph back.** Let `edges` be any list of edges, and `cleaned` those that are kept, without
the blanks at the ends of their names. The file that is written for their graph holds a text from which the following
is read, and nothing else: the names at the ends of the cleaned edges, in the order in which they are first seen and
each once; and the cleaned edges, each once, source by source in the order of the nodes. The ends of all edges are
nodes. There are as many edges as the numbers of edges into the nodes add up to, and as long as doubles can hold
these numbers, the outline tells just that number of edges. -/
theorem exported_graph_reads_back (edges : List (String × String)) :
    ∃ (nodes : List String) (pairs : List (String × String)) (text : String),
      (∀ dir before path after, (Report.exportGraph (ofEdges edges) dir).runOn before = (.ok path, after) →
        path = dir.child "dep-graph.json" ∧ after.readBytes path = .ok (Text.encode text)) ∧
      Json.read? text = some (.object
        [("nodes", .list (nodes.map fun n => .object [("id", .text n)])),
          ("edges", .list (pairs.map fun e => .object [("source", .text e.1), ("target", .text e.2)]))]) ∧
      nodes = (namesOf (edges.filterMap cleanEdge?)).eraseDups ∧ nodes.Nodup ∧
      pairs = nodes.flatMap (fun n => (edges.filterMap cleanEdge?).eraseDups.filter (·.1 == n)) ∧ pairs.Nodup ∧
      (∀ s t, (s, t) ∈ pairs ↔ Leads edges s t) ∧ (∀ e ∈ pairs, e.1 ∈ nodes ∧ e.2 ∈ nodes) ∧
      ((ofEdges edges).metrics.fanIn.map (·.2)).sum = pairs.length ∧
      ((∀ c ∈ (ofEdges edges).metrics.fanIn, c.2 < 2 ^ 53) → ∀ hotspots part,
        Markdown.hotspotPart hotspots = .ok part → ∃ rest,
          Markdown.dependencyOutline (ofEdges edges).metrics.toDatum hotspots =
            .ok ("\n## Dependency outline\n- Graph summary:\n  - Nodes: " ++ Markdown.number nodes.length ++
              "\n  - Edges: " ++ Markdown.number pairs.length ++ "\n" ++ rest)) := by
  have hformed := wellFormed_ofEdges edges
  have hperm := groupedEdges_perm hformed
  refine ⟨(ofEdges edges).nodes, (ofEdges edges).groupedEdges, (ofEdges edges).toJson, ?_, ?_, nodes_ofEdges edges,
    hformed.nodes, ?_, ?_, ?_, ?_, ?_, ?_⟩
  · intro dir before path after h
    exact readBytes_exportGraph h
  · exact Json.read?_pretty (textual_toDatum _)
  · rw [groupedEdges_eq, edges_ofEdges]
  · exact hperm.nodup_iff.mpr hformed.edges
  · intro s t
    rw [hperm.mem_iff, ← edge_ofEdges]
    rfl
  · intro e he
    have he := hperm.mem_iff.mp he
    exact ⟨hformed.source e he, hformed.target e he⟩
  · rw [hperm.length_eq]
    exact sum_fanIn hformed
  · intro hsmall hotspots part hpart
    obtain ⟨rest, hrest⟩ := Markdown.exists_dependencyOutline hsmall hpart
    have hnodes : (ofEdges edges).metrics.fanIn.length = (ofEdges edges).nodes.length := by simp [metrics, fanIn]
    have hedges : ((ofEdges edges).metrics.fanIn.map (·.2)).sum = (ofEdges edges).groupedEdges.length :=
      (sum_fanIn hformed).trans hperm.length_eq.symm
    exact ⟨rest, by rw [hrest, hnodes, hedges]⟩

end Graph

end CodeAudit
