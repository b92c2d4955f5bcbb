import CodeAudit.Proofs.Analysis.Run
import CodeAudit.Proofs.Dependency.Graph
import CodeAudit.Proofs.Sequence.Sort

/-!
# Dependency graphs and the order of imports

The imports of a file are a set, so they come in any order. The order decides in which order nodes are first seen, but
not what the nodes and their degrees are. The ten nodes with the greatest degrees are the same in every order, and in
the same order, exactly if no two nodes of one degree come together, one of them among the ten.

## Main definitions

* `Graph.ImportRow.Reordered` — the same files, each with the same imports.
* `Graph.ImportRow.Tied` — two names of one degree that come together, one of them among the greatest.

## Main results

* `Graph.ImportRow.top_iff_not_tied` — when the greatest degrees do not depend on the order of imports.
* `Graph.ImportRow.greatest_degrees_reproducible_iff` — the degrees that an analysis tells.
-/

namespace CodeAudit.Graph

open List Sequence

/-- A file with its imports in some order. -/
structure ImportRow where
  stem : String
  imports : List String
deriving DecidableEq

namespace ImportRow

variable {rows rows' before after : List ImportRow} {x y : String}

/-- The cleaned edges of a file. -/
def edges (r : ImportRow) : List (String × String) :=
  (r.imports.map (r.stem, ·)).filterMap cleanEdge?

/-- The dependencies of files, one file after another. -/
def dependencies (rows : List ImportRow) : List (String × String) :=
  rows.flatMap fun r => r.imports.map (r.stem, ·)

/-- The graph of files. -/
def graph (rows : List ImportRow) : Graph :=
  ofEdges (dependencies rows)

/-- A file with the same imports. -/
def Reorders (r r' : ImportRow) : Prop :=
  r.stem = r'.stem ∧ r.imports.Perm r'.imports

/-- **The same files, each with the same imports** in some other order. -/
def Reordered (rows rows' : List ImportRow) : Prop :=
  Forall₂ Reorders rows rows'

/-- The degrees of the nodes, where one end of each edge counts. -/
def degrees (side : String × String → String) (g : Graph) : List (String × ℕ) :=
  g.nodes.map fun n => (n, g.edges.countP (side · == n))

/-- **Two names come together** if the first file in whose edges one of them is seen has both among its imports. -/
def Together (x y : String) : List ImportRow → Prop
  | [] => False
  | r :: rows =>
    (x ∈ r.edges.map (·.2) ∧ y ∈ r.edges.map (·.2)) ∨ (x ∉ namesOf r.edges ∧ y ∉ namesOf r.edges ∧ Together x y rows)

/-- **A tie**: two names that come together have one degree, and one of them is among the greatest. -/
def Tied (rows : List ImportRow) (counts : List (String × ℕ)) : Prop :=
  ∃ x y k, x ≠ y ∧ Together x y rows ∧ (x, k) ∈ top counts ∧ (y, k) ∈ counts

/-! ## What does not depend on the order -/

lemma fanIn_eq (g : Graph) : g.fanIn = degrees Prod.snd g := rfl

lemma fanOut_eq (g : Graph) : g.fanOut = degrees Prod.fst g := rfl

lemma filterMap_dependencies (rows : List ImportRow) :
    (dependencies rows).filterMap cleanEdge? = rows.flatMap edges := by
  rw [dependencies, filterMap_flatMap]
  rfl

lemma nodes_graph (rows : List ImportRow) : (graph rows).nodes = (namesOf (rows.flatMap edges)).eraseDups := by
  rw [graph, nodes_ofEdges, filterMap_dependencies]

lemma edges_graph (rows : List ImportRow) : (graph rows).edges = (rows.flatMap edges).eraseDups := by
  rw [graph, edges_ofEdges, filterMap_dependencies]

lemma Reorders.edges_perm {r r' : ImportRow} (h : Reorders r r') : r.edges.Perm r'.edges := by
  obtain ⟨hstem, himports⟩ := h
  unfold edges
  rw [hstem]
  exact (himports.map _).filterMap _

lemma reordered_refl (rows : List ImportRow) : Reordered rows rows :=
  forall₂_same.mpr fun _ _ => ⟨rfl, .refl _⟩

lemma flatMap_edges_perm (h : Reordered rows rows') : (rows.flatMap edges).Perm (rows'.flatMap edges) := by
  induction h with
  | nil => exact .refl _
  | cons hrow _ ih => exact hrow.edges_perm.append ih

/-- Rows of the same items have the same different items. -/
lemma eraseDups_perm {α : Type} [BEq α] [LawfulBEq α] {xs ys : List α} (h : xs.Perm ys) :
    xs.eraseDups.Perm ys.eraseDups := by
  rw [perm_ext_iff_of_nodup (nodup_eraseDups _) (nodup_eraseDups _)]
  intro x
  rw [mem_eraseDups, mem_eraseDups, h.mem_iff]

lemma countP_of_reordered (side : String × String → String) (h : Reordered rows rows')
    (n : String) : (graph rows).edges.countP (side · == n) = (graph rows').edges.countP (side · == n) := by
  rw [edges_graph, edges_graph]
  exact (eraseDups_perm (flatMap_edges_perm h)).countP_eq _

/-- **Degrees do not depend on the order of imports.** -/
lemma degrees_perm (side : String × String → String) (h : Reordered rows rows') :
    (degrees side (graph rows)).Perm (degrees side (graph rows')) := by
  unfold degrees
  simp only [countP_of_reordered side h]
  rw [nodes_graph, nodes_graph]
  exact (eraseDups_perm ((flatMap_edges_perm h).flatMap_right _)).map _

/-! ## The exchange of two imports -/

/-- A name that has been seen adds nothing. -/
lemma eraseDups_of_seen {seen more : List String} {s : String} (hs : s ∈ seen) (x : String) :
    (seen ++ x :: s :: more).eraseDups = (seen ++ x :: more).eraseDups := by
  rw [eraseDups_append, eraseDups_append]
  simp [removeAll, filter_cons, hs]

/-- The exchange of two neighbouring names is seen only if both are new. -/
lemma eraseDups_swap (seen more : List String) (x y : String) :
    (seen ++ y :: x :: more).eraseDups = (seen ++ x :: y :: more).eraseDups ∨
      x ∉ seen ∧ y ∉ seen ∧ x ≠ y ∧ ∃ front back, (seen ++ x :: y :: more).eraseDups = front ++ x :: y :: back ∧
        (seen ++ y :: x :: more).eraseDups = front ++ y :: x :: back := by
  set left := (more.removeAll [x, y]).removeAll seen with hleft
  have hfront : (seen ++ x :: y :: more).eraseDups = ((seen ++ [x]) ++ [y]).eraseDups ++ left.eraseDups := by
    rw [show seen ++ x :: y :: more = ((seen ++ [x]) ++ [y]) ++ more by simp, eraseDups_append]
    simp [hleft, removeAll, filter_filter]
  have hback : (seen ++ y :: x :: more).eraseDups = ((seen ++ [y]) ++ [x]).eraseDups ++ left.eraseDups := by
    rw [show seen ++ y :: x :: more = ((seen ++ [y]) ++ [x]) ++ more by simp, eraseDups_append]
    simp [hleft, removeAll, filter_filter, Bool.and_comm]
  rw [hfront, hback]
  simp only [eraseDups_concat, mem_append, mem_singleton]
  by_cases hne : x = y
  · left
    simp [hne]
  · by_cases hx : x ∈ seen
    · left
      simp [hx, Ne.symm hne]
    · by_cases hy : y ∈ seen
      · left
        simp [hx, hy, hne]
      · right
        refine ⟨hx, hy, hne, seen.eraseDups, left.eraseDups, ?_⟩
        simp [hx, hy, hne, Ne.symm hne]

/-- **What the exchange of two neighbouring edges does to the nodes**: nothing, unless both lead to new nodes. -/
lemma nodes_swap (before after : List (String × String)) (s x y : String) :
    (namesOf (before ++ (s, y) :: (s, x) :: after)).eraseDups =
        (namesOf (before ++ (s, x) :: (s, y) :: after)).eraseDups ∨
      x ∉ namesOf before ∧ y ∉ namesOf before ∧ x ≠ y ∧ ∃ front back,
        (namesOf (before ++ (s, x) :: (s, y) :: after)).eraseDups = front ++ x :: y :: back ∧
        (namesOf (before ++ (s, y) :: (s, x) :: after)).eraseDups = front ++ y :: x :: back := by
  have hnames : ∀ a b, (namesOf (before ++ (s, a) :: (s, b) :: after)).eraseDups =
      ((namesOf before ++ [s]) ++ a :: b :: namesOf after).eraseDups := by
    intro a b
    rw [← eraseDups_of_seen (mem_append_right (namesOf before) (mem_singleton_self s))]
    simp [namesOf]
  rw [hnames, hnames]
  rcases eraseDups_swap (namesOf before ++ [s]) (namesOf after) x y with heq | ⟨hx, hy, hne, hsplit⟩
  · exact .inl heq
  · exact .inr ⟨fun h => hx (mem_append_left _ h), fun h => hy (mem_append_left _ h), hne, hsplit⟩

/-- Names that are not seen before a file and are among its imports come together. -/
lemma together_append {r : ImportRow}
    (hx : x ∉ namesOf (before.flatMap edges)) (hy : y ∉ namesOf (before.flatMap edges)) (hxr : x ∈ r.edges.map (·.2))
    (hyr : y ∈ r.edges.map (·.2)) : Together x y (before ++ r :: after) := by
  induction before with
  | nil => exact .inl ⟨hxr, hyr⟩
  | cons first before ih =>
    simp only [flatMap_cons, namesOf, flatMap_append, mem_append, not_or] at hx hy
    exact .inr ⟨hx.1, hy.1, ih hx.2 hy.2⟩

/-- **What the exchange of two neighbouring imports does to the nodes**: nothing, or two nodes that come together are
exchanged. -/
lemma nodes_graph_swap (before after : List ImportRow) (stem : String) (front back : List String) (a b : String) :
    (graph (before ++ ⟨stem, front ++ b :: a :: back⟩ :: after)).nodes =
        (graph (before ++ ⟨stem, front ++ a :: b :: back⟩ :: after)).nodes ∨
      ∃ x y left right, x ≠ y ∧ Together x y (before ++ ⟨stem, front ++ a :: b :: back⟩ :: after) ∧
        (graph (before ++ ⟨stem, front ++ a :: b :: back⟩ :: after)).nodes = left ++ x :: y :: right ∧
        (graph (before ++ ⟨stem, front ++ b :: a :: back⟩ :: after)).nodes = left ++ y :: x :: right := by
  have hedges : ∀ c d : String, (before ++ ⟨stem, front ++ c :: d :: back⟩ :: after).flatMap edges =
      (before.flatMap edges ++ edges ⟨stem, front⟩) ++
        ((cleanEdge? (stem, c)).toList ++ ((cleanEdge? (stem, d)).toList ++
          (edges ⟨stem, back⟩ ++ after.flatMap edges))) := by
    intro c d
    simp only [flatMap_append, flatMap_cons, edges, map_append, map_cons, filterMap_append,
      filterMap_cons]
    cases cleanEdge? (stem, c) <;> cases cleanEdge? (stem, d) <;> simp
  rw [nodes_graph, nodes_graph, hedges, hedges]
  cases ha : cleanEdge? (stem, a) with
  | none => exact .inl (by simp)
  | some e =>
    cases hb : cleanEdge? (stem, b) with
    | none => exact .inl (by simp)
    | some e' =>
      obtain ⟨s, x⟩ := e
      obtain ⟨s', y⟩ := e'
      obtain rfl : s = s' := (cleanEdge?_eq_some_iff.mp ha).1.symm.trans (cleanEdge?_eq_some_iff.mp hb).1
      simp only [Option.toList_some, singleton_append]
      rcases nodes_swap (before.flatMap edges ++ edges ⟨stem, front⟩) (edges ⟨stem, back⟩ ++ after.flatMap edges) s x y
        with heq | ⟨hx, hy, hne, left, right, hnodes, hnodes'⟩
      · exact .inl heq
      · refine .inr ⟨x, y, left, right, hne, ?_, hnodes, hnodes'⟩
        simp only [namesOf, flatMap_append, mem_append, not_or] at hx hy
        refine together_append hx.1 hy.1 ?_ ?_
        · exact mem_map.mpr ⟨(s, x), mem_filterMap.mpr ⟨(stem, a), by simp, ha⟩, rfl⟩
        · exact mem_map.mpr ⟨(s, y), mem_filterMap.mpr ⟨(stem, b), by simp, hb⟩, rfl⟩

/-! ## The greatest degrees -/

lemma together_comm : Together x y rows ↔ Together y x rows := by
  induction rows with
  | nil => exact Iff.rfl
  | cons r rows ih =>
    simp only [Together, ih]
    tauto

/-- Whether two names come together does not depend on the order of imports. -/
lemma together_iff_of_reordered (h : Reordered rows rows') (x y : String) :
    Together x y rows ↔ Together x y rows' := by
  induction h with
  | nil => exact Iff.rfl
  | @cons r r' _ _ hrow _ ih =>
    have htargets : ∀ z, z ∈ r.edges.map (·.2) ↔ z ∈ r'.edges.map (·.2) := fun z =>
      (hrow.edges_perm.map (·.2)).mem_iff
    have hnames : ∀ z, z ∈ namesOf r.edges ↔ z ∈ namesOf r'.edges := fun z =>
      (hrow.edges_perm.flatMap_right _).mem_iff
    simp only [Together, htargets, hnames, ih]

/-- A tie does not depend on the order of imports, if the greatest degrees do not. -/
lemma tied_iff_of_reordered (side : String × String → String) (h : Reordered rows rows')
    (htop : top (degrees side (graph rows')) = top (degrees side (graph rows))) :
    Tied rows' (degrees side (graph rows')) ↔ Tied rows (degrees side (graph rows)) := by
  simp only [Tied, htop, ← together_iff_of_reordered h, (degrees_perm side h).mem_iff]

lemma nodup_degrees (side : String × String → String) (rows : List ImportRow) :
    (degrees side (graph rows)).Nodup :=
  (wellFormed_ofEdges _).nodes.map fun _ _ heq => (Prod.mk.inj heq).1

lemma reordered_at {stem : String} {imports imports' : List String} (h : imports.Perm imports') :
    Reordered (before ++ ⟨stem, imports⟩ :: after) (before ++ ⟨stem, imports'⟩ :: after) :=
  rel_append (reordered_refl before) (.cons ⟨rfl, h⟩ (reordered_refl after))

section Tie

variable (side : String × String → String)

variable {before after rows : List ImportRow} {stem x y : String} {front back : List String}
  {counts : List (String × ℕ)} {c : String × ℕ} {k : ℕ}

/-- **The exchange of two neighbouring imports leaves the greatest degrees as they are**, if there is no tie. -/
lemma top_swap {a b : String} (h : ¬ Tied (before ++ ⟨stem, front ++ a :: b :: back⟩ :: after)
      (degrees side (graph (before ++ ⟨stem, front ++ a :: b :: back⟩ :: after)))) :
    top (degrees side (graph (before ++ ⟨stem, front ++ b :: a :: back⟩ :: after))) =
      top (degrees side (graph (before ++ ⟨stem, front ++ a :: b :: back⟩ :: after))) := by
  set rows := before ++ ⟨stem, front ++ a :: b :: back⟩ :: after with hrows
  have hreordered : Reordered rows (before ++ ⟨stem, front ++ b :: a :: back⟩ :: after) :=
    reordered_at ((Perm.swap _ _ _).append_left front)
  set degree : String → String × ℕ := fun n => (n, (graph rows).edges.countP (side · == n)) with hdegree
  have hdegrees : degrees side (graph (before ++ ⟨stem, front ++ b :: a :: back⟩ :: after)) =
      (graph (before ++ ⟨stem, front ++ b :: a :: back⟩ :: after)).nodes.map degree := by
    simp only [degrees, hdegree, countP_of_reordered side hreordered]
  have hnodup := nodup_degrees side rows
  rcases nodes_graph_swap before after stem front back a b with heq | ⟨x, y, left, right, hne, htogether, hnodes, hnodes'⟩
  · rw [hdegrees, heq]
    rfl
  · have hcounts : degrees side (graph rows) = left.map degree ++ degree x :: degree y :: right.map degree := by
      change (graph rows).nodes.map degree = _
      simp [hrows, hnodes]
    rw [hcounts] at h hnodup ⊢
    rw [hdegrees, hnodes', map_append, map_cons, map_cons]
    refine take_mergeSort_swap (fun c : String × ℕ => OrderDual.toDual c.2) hnodup fun htie => ?_
    have hsame : (degree x).2 = (degree y).2 := htie
    have hx : (x, (degree y).2) = degree x := congrArg (Prod.mk x) hsame.symm
    have hy : (y, (degree x).2) = degree y := congrArg (Prod.mk y) hsame
    constructor
    · exact fun hmem => h ⟨x, y, (degree x).2, hne, htogether, hmem, by simp [hy]⟩
    · exact fun hmem => h ⟨y, x, (degree y).2, hne.symm, together_comm.mp htogether, hmem, by simp [hx]⟩

/-- **Imports of one file in any order** give the same greatest degrees, if there is no tie.

**Proof sketch.** Every order is reached by exchanges of neighbours. Each of them leaves the greatest degrees as they
are, so there is still no tie behind it. -/
lemma top_of_perm {imports imports' : List String} (hperm : imports.Perm imports')
    (h : ¬ Tied (before ++ ⟨stem, front ++ imports⟩ :: after)
      (degrees side (graph (before ++ ⟨stem, front ++ imports⟩ :: after)))) :
    top (degrees side (graph (before ++ ⟨stem, front ++ imports'⟩ :: after))) =
      top (degrees side (graph (before ++ ⟨stem, front ++ imports⟩ :: after))) := by
  induction hperm generalizing front with
  | nil => rfl
  | @cons a rest rest' _ ih =>
    rw [append_cons front a rest] at h ⊢
    rw [append_cons front a rest']
    exact ih h
  | swap a b rest => exact top_swap side h
  | trans hfirst hsecond ih ih' =>
    have htop := ih h
    rw [ih' fun htied => h ((tied_iff_of_reordered side (reordered_at (hfirst.append_left front)) htop).mp htied), htop]

/-- **Files with their imports in any order** give the same greatest degrees, if there is no tie. -/
lemma top_of_reordered (hrows : Reordered rows rows')
    (h : ¬ Tied (before ++ rows) (degrees side (graph (before ++ rows)))) :
    top (degrees side (graph (before ++ rows'))) = top (degrees side (graph (before ++ rows))) := by
  induction hrows generalizing before with
  | nil => rfl
  | @cons r r' rows rows' hrow hrest ih =>
    obtain ⟨stem, imports⟩ := r
    obtain ⟨stem', imports'⟩ := r'
    obtain ⟨rfl, hperm⟩ : stem = stem' ∧ imports.Perm imports' := hrow
    have hfirst : top (degrees side (graph (before ++ ⟨stem, imports'⟩ :: rows))) =
        top (degrees side (graph (before ++ ⟨stem, imports⟩ :: rows))) := by
      rw [← nil_append imports] at h
      have hempty := top_of_perm side hperm h
      rwa [nil_append, nil_append] at hempty
    have hnone := fun htied => h ((tied_iff_of_reordered side (reordered_at hperm) hfirst).mp htied)
    rw [append_cons] at hnone
    rw [append_cons before _ rows', ih hnone, ← append_cons, hfirst]

/-! ## Names that come together -/

/-- Of a name and one that is first seen behind it, the first comes first among the different names. -/
lemma sublist_eraseDups (hne : x ≠ y) (hfront : y ∉ front) (hback : y ∈ back) :
    [x, y].Sublist (front ++ x :: back).eraseDups := by
  rw [show front ++ x :: back = (front ++ [x]) ++ back by simp, eraseDups_append]
  have hx : x ∈ (front ++ [x]).eraseDups := by simp [mem_eraseDups]
  have hy : y ∈ (back.removeAll (front ++ [x])).eraseDups := by
    simp [mem_eraseDups, removeAll, hback, hfront, Ne.symm hne]
  exact (singleton_sublist.mpr hx).append (singleton_sublist.mpr hy)

lemma exists_import_of_mem_targets {r : ImportRow} (h : x ∈ r.edges.map (·.2)) :
    ∃ a ∈ r.imports, cleanEdge? (r.stem, a) = some (Text.trim r.stem, x) := by
  obtain ⟨⟨s, t⟩, he, rfl⟩ := mem_map.mp h
  obtain ⟨d, hd, hclean⟩ := mem_filterMap.mp he
  obtain ⟨a, ha, rfl⟩ := mem_map.mp hd
  obtain rfl : Text.trim r.stem = s := (cleanEdge?_eq_some_iff.mp hclean).1
  exact ⟨a, ha, hclean⟩

lemma namesOf_append (front back : List (String × String)) : namesOf (front ++ back) = namesOf front ++ namesOf back :=
  flatMap_append

/-- **Names that come together can come in either order.** -/
lemma exists_reordered_of_together (hne : x ≠ y) (h : Together x y rows) : ∃ rows', Reordered rows rows' ∧
      ∃ front back, namesOf (rows'.flatMap edges) = front ++ x :: back ∧ y ∉ front ∧ y ∈ back := by
  induction rows with
  | nil => cases h
  | cons r rows ih =>
    rcases h with ⟨hx, hy⟩ | ⟨hx, hy, h⟩
    · -- the import of the first name is put in front
      obtain ⟨stem, imports⟩ := r
      obtain ⟨a, ha, hclean⟩ := exists_import_of_mem_targets hx
      obtain ⟨b, hb, hclean'⟩ := exists_import_of_mem_targets hy
      obtain ⟨-, htrim, -⟩ := cleanEdge?_eq_some_iff.mp hclean
      obtain ⟨-, htrim', -, -, hother⟩ := cleanEdge?_eq_some_iff.mp hclean'
      have hrest : b ∈ imports.erase a := by
        refine (mem_erase_of_ne ?_).mpr hb
        rintro rfl
        exact hne (htrim.symm.trans htrim')
      refine ⟨⟨stem, a :: imports.erase a⟩ :: rows, .cons ⟨rfl, perm_cons_erase ha⟩ (reordered_refl rows),
        [Text.trim stem], namesOf (edges ⟨stem, imports.erase a⟩) ++ namesOf (rows.flatMap edges), ?_, ?_, ?_⟩
      · rw [flatMap_cons, namesOf_append]
        simp [edges, hclean, namesOf]
      · simpa using Ne.symm hother
      · refine mem_append_left _ (mem_flatMap.mpr ⟨(Text.trim stem, y), ?_, by simp⟩)
        exact mem_filterMap.mpr ⟨(stem, b), mem_map_of_mem hrest, hclean'⟩
    · obtain ⟨rows', hrows, front, back, hnames, hfront, hback⟩ := ih h
      refine ⟨r :: rows', .cons ⟨rfl, .refl _⟩ hrows, namesOf r.edges ++ front, back, ?_, ?_, hback⟩
      · rw [flatMap_cons, namesOf_append, hnames, append_assoc]
      · simp [hy, hfront]

lemma mem_of_mem_top (h : c ∈ top counts) : c ∈ counts :=
  mem_mergeSort.mp (mem_of_mem_take h)

lemma mem_top_iff (h : counts.length ≤ 10) : c ∈ top counts ↔ c ∈ counts := by
  rw [top, take_of_length_le (by simpa using h), mem_mergeSort]

lemma nodup_mergeSort_degrees (rows : List ImportRow) :
    ((degrees side (graph rows)).mergeSort fun a b => b.2 ≤ a.2).Nodup :=
  (mergeSort_perm _ _).nodup_iff.mpr (nodup_degrees side rows)

lemma countP_of_mem_degrees {g : Graph} {n : String} (h : (n, k) ∈ degrees side g) :
    g.edges.countP (side · == n) = k := by
  obtain ⟨m, -, heq⟩ := mem_map.mp h
  obtain ⟨rfl, rfl⟩ := Prod.mk.inj heq
  rfl

/-- If the greatest degrees do not depend on the order of imports, names that come together and have one degree stand
among them in this order, provided that the second one does. -/
lemma sublist_top (hne : x ≠ y)
    (hall : ∀ rows', Reordered rows rows' → top (degrees side (graph rows')) = top (degrees side (graph rows)))
    (htogether : Together x y rows) (hx : (x, k) ∈ degrees side (graph rows))
    (hy : (y, k) ∈ top (degrees side (graph rows))) : [(x, k), (y, k)].Sublist (top (degrees side (graph rows))) := by
  obtain ⟨rows', hrows, front, back, hnames, hfront, hback⟩ := exists_reordered_of_together hne htogether
  have hpair : [(x, k), (y, k)].Sublist (degrees side (graph rows')) := by
    have hnodes : [x, y].Sublist (graph rows').nodes := by
      rw [nodes_graph, hnames]
      exact sublist_eraseDups hne hfront hback
    have hmem : ∀ c ∈ degrees side (graph rows), c ∈ degrees side (graph rows') := fun c =>
      (degrees_perm side hrows).mem_iff.mp
    have hmap := hnodes.map fun n => (n, (graph rows').edges.countP (side · == n))
    rwa [map_cons, map_singleton, countP_of_mem_degrees side (hmem _ hx),
      countP_of_mem_degrees side (hmem _ (mem_of_mem_top hy))] at hmap
  have hsorted : [(x, k), (y, k)].Sublist ((degrees side (graph rows')).mergeSort fun a b => b.2 ≤ a.2) := by
    refine pair_sublist_mergeSort (fun a b c hab hbc => ?_) (fun a b => ?_) (by simp) hpair
    · simp only [decide_eq_true_eq] at hab hbc ⊢
      exact hbc.trans hab
    · simpa using le_total b.2 a.2
  rw [← hall rows' hrows] at hy ⊢
  exact pair_sublist_take (nodup_mergeSort_degrees side rows') hsorted hy

/-- **The greatest degrees do not depend on the order of imports exactly if there is no tie.** -/
lemma top_iff_not_tied (rows : List ImportRow) :
    (∀ rows', Reordered rows rows' → top (degrees side (graph rows')) = top (degrees side (graph rows))) ↔
      ¬ Tied rows (degrees side (graph rows)) := by
  constructor
  · rintro hall ⟨x, y, k, hne, htogether, hx, hy⟩
    have hfirst := sublist_top side hne.symm hall (together_comm.mp htogether) hy hx
    have hsecond := sublist_top side hne hall htogether (mem_of_mem_top hx) (hfirst.subset (by simp))
    have hnodup : (top (degrees side (graph rows))).Nodup :=
      (nodup_mergeSort_degrees side rows).sublist (take_sublist _ _)
    exact not_sublist_swap hnodup hfirst hsecond
  · intro h rows' hrows
    rw [← nil_append rows] at h
    have hempty := top_of_reordered side hrows h
    rwa [nil_append, nil_append] at hempty

end Tie

/-! ## Analyses -/

/-- The listed files of a repository with their imports. -/
def ofFiles (fs : Files) (root : Path) (infos : List FileInfo) : List ImportRow :=
  infos.map fun info => ⟨info.path.stem, Imports.read fs root info.path info.language⟩

lemma dependenciesOf_eq (fs : Files) (root : Path) (infos : List FileInfo) :
    Analysis.dependenciesOf fs root infos = dependencies (ofFiles fs root infos) := by
  rw [dependencies, ofFiles, flatMap_map]
  rfl

/-- **Which degrees of an analysis do not depend on the order of imports.** An analysis tells the degrees in the graph
of the listed files with their imports. With the imports of each file in any other order all nodes have the same fan-in
and fan-out. The greatest of them are the same and in the same order, whatever the order of imports is, exactly if there
is no tie.

**Proof sketch.** Degrees count different edges, which are the same in every order (`degrees_perm`). The exchange of two
neighbouring imports exchanges at most two neighbouring nodes (`nodes_graph_swap`), and a stable sort tells them apart
only if their degrees are equal. For the converse, of two names that come together each can come first
(`exists_reordered_of_together`). -/
theorem greatest_degrees_reproducible_iff {fs : Files} {root : Path} {request : Analysis.Request} {a : Analysis}
    (hrun : Analysis.run fs root request = .ok a) {top : Place} (htop : fs.resolve root = .ok top)
    {infos : List FileInfo}
    (hinfos : Analysis.files fs (Files.pathOf top) request = .ok infos) :
    a.metrics = (graph (ofFiles fs (Files.pathOf top) infos)).metrics ∧
      (∀ rows, Reordered (ofFiles fs (Files.pathOf top) infos) rows →
        a.metrics.fanIn.Perm (graph rows).metrics.fanIn ∧ a.metrics.fanOut.Perm (graph rows).metrics.fanOut) ∧
      ((∀ rows, Reordered (ofFiles fs (Files.pathOf top) infos) rows →
          (graph rows).metrics.topFanIn = a.metrics.topFanIn ∧ (graph rows).metrics.topFanOut = a.metrics.topFanOut) ↔
        ¬ Tied (ofFiles fs (Files.pathOf top) infos) a.metrics.fanIn ∧
          ¬ Tied (ofFiles fs (Files.pathOf top) infos) a.metrics.fanOut) := by
  obtain ⟨top', infos', h⟩ := Analysis.stages_of_run hrun
  obtain rfl : top = top' := Except.ok.inj (htop.symm.trans h.resolved)
  obtain rfl : infos = infos' := Except.ok.inj (hinfos.symm.trans h.scanned)
  have hmetrics : a.metrics = (graph (ofFiles fs (Files.pathOf top) infos)).metrics := by
    rw [h.metrics, h.graph, h.dependencies, dependenciesOf_eq, graph]
  refine ⟨hmetrics, fun rows hrows => ?_, ?_⟩
  · rw [hmetrics]
    exact ⟨degrees_perm Prod.snd hrows, degrees_perm Prod.fst hrows⟩
  · have hin := top_iff_not_tied Prod.snd (ofFiles fs (Files.pathOf top) infos)
    have hout := top_iff_not_tied Prod.fst (ofFiles fs (Files.pathOf top) infos)
    rw [hmetrics, show (graph (ofFiles fs (Files.pathOf top) infos)).metrics.fanIn = _ from fanIn_eq _,
      show (graph (ofFiles fs (Files.pathOf top) infos)).metrics.fanOut = _ from fanOut_eq _, ← hin, ← hout]
    exact ⟨fun hall => ⟨fun rows hrows => (hall rows hrows).1, fun rows hrows => (hall rows hrows).2⟩,
      fun hall rows hrows => ⟨hall.1 rows hrows, hall.2 rows hrows⟩⟩

/-- A script that imports two others. -/
def twoImports : Files :=
  Analysis.lone "a.py" (Text.encode "import x\nimport y\n")

/-- The two imports of a script have one fan-in, so it depends on their order which of them is told first. -/
theorem greatest_degrees_twoImports : ∃ a info, Analysis.run twoImports ⟨"", []⟩ Analysis.allFiles = .ok a ∧
    Analysis.files twoImports (Files.pathOf []) Analysis.allFiles = .ok [info] ∧
    a.metrics.fanIn = [("a", 0), ("['x']", 1), ("['y']", 1)] ∧
    ∃ rows, Reordered (ofFiles twoImports (Files.pathOf []) [info]) rows ∧
      ¬ ((graph rows).metrics.topFanIn = a.metrics.topFanIn ∧ (graph rows).metrics.topFanOut = a.metrics.topFanOut) := by
  have htop : (twoImports.resolve ⟨"", []⟩).toOption = some [] := by decide +kernel
  have hlisted : ((Analysis.files twoImports (Files.pathOf []) Analysis.allFiles).toOption.map fun infos =>
      (infos.length, ofFiles twoImports (Files.pathOf []) infos)) = some (1, [⟨"a", ["['x']", "['y']"]⟩]) := by
    decide +kernel
  have hfound : ((Analysis.run twoImports ⟨"", []⟩ Analysis.allFiles).toOption.map (·.metrics.fanIn)) =
      some [("a", 0), ("['x']", 1), ("['y']", 1)] := by
    decide +kernel
  obtain ⟨infos, hinfos, hrows⟩ := Outcome.exists_ok_of_map hlisted
  obtain ⟨hone, hrows⟩ := Prod.mk.inj hrows
  obtain ⟨info, rfl⟩ := List.length_eq_one_iff.mp hone
  obtain ⟨a, hrun, hfanIn⟩ := Outcome.exists_ok_of_map hfound
  obtain ⟨-, -, hiff⟩ := greatest_degrees_reproducible_iff hrun (Outcome.eq_ok_of_toOption htop) hinfos
  refine ⟨a, info, hrun, hinfos, hfanIn, ?_⟩
  by_contra! hall
  refine (hiff.mp hall).1 ⟨"['x']", "['y']", 1, by decide, ?_, ?_, ?_⟩
  · have hedges : edges ⟨"a", ["['x']", "['y']"]⟩ = [("a", "['x']"), ("a", "['y']")] := by decide +kernel
    change Together _ _ (ofFiles twoImports (Files.pathOf []) [info])
    rw [hrows]
    exact .inl (by simp [hedges])
  · rw [hfanIn, mem_top_iff (by simp)]
    simp
  · simp [hfanIn]

end ImportRow

end CodeAudit.Graph
