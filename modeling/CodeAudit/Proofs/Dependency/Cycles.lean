import CodeAudit.Proofs.Dependency.Graph

/-!
# The elementary cycles of a dependency graph

Cycles are searched from every node over greater nodes only, so that each cycle is found from its least node. The
search keeps to nodes from which a path leads back; this leaves out no cycle, because the set of these nodes is closed
under going back along edges. What is reported are the first ten cycles, and of each the first eight nodes.

## Main definitions

* `IsElementary` — the elementary cycles of a relation.
* `Graph.Leads` — an edge among the cleaned edges of a list.

## Main results

* `Graph.pairwise_cycles` — the search finds each cycle once and in order.
* `Graph.reported_cycles_sound_complete` — what is reported of the cycles.
-/

namespace CodeAudit

open List

/-! ## Elementary cycles of a relation -/

section Relation

variable {α : Type} {r : α → α → Prop}

variable {c : List α}

/-- **An elementary cycle** of a relation, told from one of its nodes on: the nodes are different, each of them leads to
the next, and the last one to the first. -/
def IsElementary (r : α → α → Prop) : List α → Prop
  | [] => False
  | n :: rest => (n :: rest).Nodup ∧ (n :: (rest ++ [n])).IsChain r

lemma isElementary_iff : IsElementary r c ↔ c ≠ [] ∧ c.Nodup ∧ Cycle.Chain r c := by
  cases c with
  | nil => simp [IsElementary]
  | cons n rest => simp [IsElementary, Cycle.chain_coe_cons]

/-- A cycle can be told from any of its nodes on. -/
lemma IsElementary.rotate {front back : List α} (h : IsElementary r (front ++ back)) :
    IsElementary r (back ++ front) := by
  rw [isElementary_iff] at h ⊢
  obtain ⟨hne, hnodup, hchain⟩ := h
  have hrotated : front ++ back ~r back ++ front := isRotated_append
  refine ⟨fun hnil => hne ?_, hrotated.nodup_iff.mp hnodup, ?_⟩
  · rw [append_eq_nil_iff] at hnil ⊢
    exact hnil.symm
  · rwa [← Cycle.coe_eq_coe.mpr hrotated]

/-- The nodes of a cycle lead to one another. -/
lemma IsElementary.isChain (h : IsElementary r c) : c.IsChain r := by
  cases c with
  | nil => exact h.elim
  | cons n rest =>
    have hclosed : (n :: rest ++ [n]).IsChain r := h.2
    exact hclosed.left_of_append

/-- **Every walk that comes back holds an elementary cycle.**

**Proof sketch.** Induction on the length. If a node is met twice, the walk between the two times comes back too, and
it is shorter. -/
lemma exists_isElementary_of_isChain (n : α) (rest : List α) (h : (n :: (rest ++ [n])).IsChain r) :
    ∃ c, IsElementary r c := by
  induction hlength : rest.length using Nat.strong_induction_on generalizing n rest with
  | _ k ih =>
    by_cases hnodup : (n :: rest).Nodup
    · exact ⟨n :: rest, hnodup, h⟩
    · obtain ⟨x, hx⟩ := exists_duplicate_iff_not_nodup.mpr hnodup
      obtain ⟨first, second, heq, hfirst, hsecond⟩ := cons_sublist_iff.mp (duplicate_iff_sublist.mp hx)
      obtain ⟨a, b, rfl⟩ := append_of_mem hfirst
      obtain ⟨b', c, rfl⟩ := append_of_mem (singleton_sublist.mp hsecond)
      have hinside : (n :: rest) ++ [n] = a ++ ((x :: ((b ++ b') ++ [x])) ++ (c ++ [n])) := by
        rw [heq]
        simp
      rw [← cons_append, hinside] at h
      have hshort : (b ++ b').length < k := by
        have := congrArg List.length heq
        simp only [length_cons, length_append] at this ⊢
        omega
      exact ih _ hshort x (b ++ b') h.right_of_append.left_of_append rfl

lemma transGen_of_isChain {m : α} (n : α) (rest : List α) (h : (n :: (rest ++ [m])).IsChain r) :
    Relation.TransGen r n m := by
  induction rest generalizing n with
  | nil => exact .single (isChain_cons_cons.mp h).1
  | cons k rest ih =>
    obtain ⟨hnk, hrest⟩ := isChain_cons_cons.mp h
    exact .head hnk (ih k hrest)

/-- **A relation has elementary cycles exactly if something leads back to itself.** -/
lemma exists_isElementary_iff : (∃ c, IsElementary r c) ↔ ∃ n, Relation.TransGen r n n := by
  constructor
  · rintro ⟨c, hc⟩
    cases c with
    | nil => exact hc.elim
    | cons n rest => exact ⟨n, transGen_of_isChain n rest hc.2⟩
  · rintro ⟨n, hn⟩
    obtain ⟨m, hnm, hmn⟩ := Relation.TransGen.tail'_iff.mp hn
    obtain ⟨rest, hchain, hlast⟩ := exists_isChain_cons_of_relationReflTransGen hnm
    refine exists_isElementary_of_isChain n rest (isChain_append.mpr ⟨hchain, isChain_singleton n, ?_⟩)
    intro x hx y hy
    obtain rfl : x = m := by
      rw [getLast?_eq_some_getLast (cons_ne_nil n rest), hlast] at hx
      exact (Option.some.inj hx).symm
    obtain rfl : n = y := Option.some.inj hy
    exact hmn

/-- A cycle can be told from its least node on. -/
lemma IsElementary.exists_least [LinearOrder α] (h : IsElementary r c) :
    ∃ start rest, IsElementary r (start :: rest) ∧ ∀ n ∈ rest, start < n := by
  have hne : c ≠ [] := (isElementary_iff.mp h).1
  obtain ⟨start, hstart, hleast⟩ := Finset.exists_min_image c.toFinset id (toFinset_nonempty_iff c |>.mpr hne)
  obtain ⟨front, back, rfl⟩ := append_of_mem (mem_toFinset.mp hstart)
  have hrotated := h.rotate
  refine ⟨start, back ++ front, hrotated, fun n hn => lt_of_le_of_ne (hleast n ?_) fun heq => ?_⟩
  · simp only [mem_toFinset, mem_append, mem_cons] at hn ⊢
    tauto
  · subst heq
    exact (nodup_cons.mp hrotated.1).1 hn

end Relation

namespace Graph

variable {g : Graph}

variable {names known allowed path c : List String} {n m last : String} {rounds depth : ℕ}

/-- An edge leads from one node to another. -/
def Edge (g : Graph) (s t : String) : Prop :=
  (s, t) ∈ g.edges

/-! ## Names in order -/

lemma mem_sortNames : n ∈ sortNames names ↔ n ∈ names :=
  mem_mergeSort

/-- Different names rise strictly when they are in order. -/
lemma pairwise_sortNames (h : names.Nodup) : (sortNames names).Pairwise (· < ·) :=
  Sequence.pairwise_lt_mergeSort id h

lemma mem_successors : m ∈ g.successors n ↔ g.Edge n m := by
  simp [successors, Edge]

lemma nodup_successors (h : g.WellFormed) (n : String) : (g.successors n).Nodup := by
  refine (h.edges.filter _).map_on fun d hd e he heq => ?_
  have hd := (mem_filter.mp hd).2
  have he := (mem_filter.mp he).2
  simp only [beq_iff_eq] at hd he
  exact Prod.ext (hd.trans he.symm) heq

/-! ## Nodes from which a path leads back -/

variable {start : String}

lemma mem_leadingTo :
    n ∈ g.leadingTo start known ↔ n ∈ g.nodes ∧ start < n ∧ ∃ m, g.Edge n m ∧ (m = start ∨ m ∈ known) := by
  simp [leadingTo, mem_successors]

/-- More nodes that are known give more nodes that lead to them, in the same order. -/
lemma leadingTo_sublist {more : List String} (h : known ⊆ more) :
    (g.leadingTo start known).Sublist (g.leadingTo start more) := by
  refine monotone_filter_right g.nodes fun n hn => ?_
  simp only [Bool.and_eq_true, decide_eq_true_eq, any_eq_true, Bool.or_eq_true, beq_iff_eq,
    contains_iff_mem] at hn ⊢
  obtain ⟨hlt, m, hm, hback⟩ := hn
  exact ⟨hlt, m, hm, hback.imp_right (h ·)⟩

/-- Only nodes above the start are kept. -/
lemma lt_of_mem_returning (h : ∀ n ∈ known, start < n) : ∀ n ∈ g.returning start rounds known, start < n := by
  induction rounds generalizing known with
  | zero => exact h
  | succ rounds ih =>
    rw [returning]
    split_ifs
    · exact h
    · exact ih fun n hn => (mem_leadingTo.mp hn).2.1

/-- **The nodes from which a path leads back are closed** under going back along edges.

**Proof sketch.** In every round the known nodes are among those that lead to them, and come in the same order. So if
their number stays the same, they stay the same; and as it grows in all other rounds, the last round would know all
nodes. -/
lemma leadingTo_returning_subset (hsublist : known.Sublist g.nodes)
    (hknown : known.Sublist (g.leadingTo start known)) (hrounds : g.nodes.length ≤ known.length + rounds) :
    g.leadingTo start (g.returning start rounds known) ⊆ g.returning start rounds known := by
  induction rounds generalizing known with
  | zero =>
    obtain rfl : known = g.nodes := hsublist.eq_of_length_le hrounds
    exact filter_sublist.subset
  | succ rounds ih =>
    rw [returning]
    split_ifs with hlength
    · rw [← hknown.eq_of_length_le hlength.le]
      exact Subset.refl _
    · have hgrows := hknown.length_le
      exact ih filter_sublist (leadingTo_sublist hknown.subset) (by omega)

/-- The nodes on a walk over nodes above the start that comes back to it are all kept. -/
lemma mem_returning_of_isChain (h : g.WellFormed) {rest : List String}
    (hchain : (n :: (rest ++ [start])).IsChain g.Edge) (habove : ∀ m ∈ n :: rest, start < m) :
    ∀ m ∈ n :: rest, m ∈ g.returning start g.nodes.length [] := by
  have hclosed : g.leadingTo start (g.returning start g.nodes.length []) ⊆ g.returning start g.nodes.length [] :=
    leadingTo_returning_subset (nil_sublist _) (nil_sublist _) (by simp)
  induction rest generalizing n with
  | nil =>
    have hedge : g.Edge n start := (isChain_cons_cons.mp hchain).1
    simp only [mem_singleton, forall_eq]
    exact hclosed (mem_leadingTo.mpr ⟨h.source _ hedge, habove n (by simp), start, hedge, .inl rfl⟩)
  | cons k rest ih =>
    obtain ⟨hedge, hrest⟩ := isChain_cons_cons.mp hchain
    have hkept := ih hrest fun m hm => habove m (mem_cons_of_mem _ hm)
    refine forall_mem_cons.mpr ⟨?_, hkept⟩
    exact hclosed (mem_leadingTo.mpr
      ⟨h.source _ hedge, habove n (by simp), k, hedge, .inr (hkept k mem_cons_self)⟩)

/-! ## The search -/

/-- The nodes with which a path goes on. -/
lemma mem_next : n ∈ (sortNames (g.successors last)).filter (fun n => allowed.contains n && !path.contains n) ↔
      g.Edge last n ∧ n ∈ allowed ∧ n ∉ path := by
  simp [mem_sortNames, mem_successors]

/-- **What the search from the end of a path finds**: all ways to go on over new nodes and back to the start. -/
lemma mem_cyclesFrom_iff :
    c ∈ g.cyclesFrom start allowed depth path last ↔ ∃ more : List String, c = path.reverse ++ more ∧
      more.length ≤ depth ∧ (last :: (more ++ [start])).IsChain g.Edge ∧ more.Nodup ∧
        ∀ n ∈ more, n ∈ allowed ∧ n ∉ path := by
  have hhome : ∀ {last : String} {path : List String},
      c ∈ (if (last, start) ∈ g.edges then [path.reverse] else []) ↔ g.Edge last start ∧ c = path.reverse := by
    intro last path
    split_ifs with hedge <;> simp [Edge, hedge]
  induction depth generalizing path last with
  | zero =>
    rw [cyclesFrom, hhome]
    constructor
    · rintro ⟨hedge, rfl⟩
      exact ⟨[], by simp [hedge]⟩
    · rintro ⟨more, rfl, hlength, hchain, -⟩
      obtain rfl := length_eq_zero_iff.mp (Nat.le_zero.mp hlength)
      exact ⟨by simpa using hchain, by simp⟩
  | succ depth ih =>
    rw [cyclesFrom, mem_append, hhome, mem_flatMap]
    constructor
    · rintro (⟨hedge, rfl⟩ | ⟨n, hn, hc⟩)
      · exact ⟨[], by simp [hedge]⟩
      · obtain ⟨hedge, hallowed, hnew⟩ := mem_next.mp hn
        obtain ⟨more, rfl, hlength, hchain, hnodup, hmore⟩ := ih.mp hc
        refine ⟨n :: more, by simp, by simpa using hlength, isChain_cons_cons.mpr ⟨hedge, hchain⟩, ?_, ?_⟩
        · exact nodup_cons.mpr ⟨fun hmem => (hmore n hmem).2 mem_cons_self, hnodup⟩
        · refine forall_mem_cons.mpr ⟨⟨hallowed, hnew⟩, fun m hm => ?_⟩
          exact ⟨(hmore m hm).1, fun hpath => (hmore m hm).2 (mem_cons_of_mem _ hpath)⟩
    · rintro ⟨more, rfl, hlength, hchain, hnodup, hmore⟩
      cases more with
      | nil => exact .inl ⟨by simpa using hchain, by simp⟩
      | cons n more =>
        obtain ⟨hedge, hchain⟩ := isChain_cons_cons.mp hchain
        obtain ⟨hn, hnodup⟩ := nodup_cons.mp hnodup
        obtain ⟨⟨hallowed, hnew⟩, hmore⟩ := forall_mem_cons.mp hmore
        refine .inr ⟨n, mem_next.mpr ⟨hedge, hallowed, hnew⟩, ih.mpr ⟨more, by simp, by simpa using hlength, hchain,
          hnodup, fun m hm => ⟨(hmore m hm).1, ?_⟩⟩⟩
        simp only [mem_cons, not_or]
        exact ⟨fun heq => hn (heq ▸ hm), (hmore m hm).2⟩

/-- **The search finds every elementary cycle, from its least node on, and no others.** -/
lemma mem_cycles_iff (h : g.WellFormed) :
    c ∈ g.cycles ↔ ∃ start rest, c = start :: rest ∧ IsElementary g.Edge c ∧ ∀ n ∈ rest, start < n := by
  simp only [cycles, mem_flatMap, mem_sortNames, mem_cyclesFrom_iff, reverse_singleton, singleton_append,
    mem_singleton]
  constructor
  · rintro ⟨start, -, rest, rfl, -, hchain, hnodup, hrest⟩
    have habove : ∀ n ∈ rest, start < n := fun n hn => lt_of_mem_returning (by simp) n (hrest n hn).1
    exact ⟨start, rest, rfl, ⟨nodup_cons.mpr ⟨fun hmem => (habove start hmem).false, hnodup⟩, hchain⟩, habove⟩
  · rintro ⟨start, rest, rfl, ⟨hnodup, hchain⟩, habove⟩
    obtain ⟨hstart, hnodup⟩ := nodup_cons.mp hnodup
    -- what stands behind the start is kept, and every node is the source of an edge
    have hkept : ∀ n ∈ rest, n ∈ g.returning start g.nodes.length [] := by
      cases rest with
      | nil => simp
      | cons n rest => exact mem_returning_of_isChain h (isChain_cons_cons.mp hchain).2 habove
    have hnode : ∀ n ∈ start :: rest, n ∈ g.nodes := by
      intro n hn
      obtain ⟨front, back, heq⟩ := append_of_mem hn
      rw [← cons_append, heq, append_assoc, cons_append] at hchain
      have hrest := (isChain_append.mp hchain).2.1
      cases back with
      | nil => exact h.source _ (isChain_cons_cons.mp hrest).1
      | cons m back => exact h.source _ (isChain_cons_cons.mp hrest).1
    refine ⟨start, hnode start mem_cons_self, rest, rfl, ?_, hchain, hnodup, fun n hn => ⟨hkept n hn, ?_⟩⟩
    · exact (hnodup.subperm fun n hn => hnode n (mem_cons_of_mem _ hn)).length_le
    · exact fun heq => hstart (heq ▸ hn)

/-! ## The order of the cycles -/

/-- Cycles that begin with the same path and go on with different nodes are in the order of these nodes. -/
lemma lt_of_mem_cyclesFrom (h : m < n) {d : List String} (hc : c ∈ g.cyclesFrom start allowed depth (m :: path) m)
    (hd : d ∈ g.cyclesFrom start allowed depth (n :: path) n) : c < d := by
  obtain ⟨more, rfl, -⟩ := mem_cyclesFrom_iff.mp hc
  obtain ⟨more', rfl, -⟩ := mem_cyclesFrom_iff.mp hd
  simp only [reverse_cons, append_assoc, singleton_append]
  exact append_left_lt (cons_lt_cons_iff.mpr (.inl h))

/-- The cycles that go on from a path come in order. -/
lemma pairwise_cyclesFrom (h : g.WellFormed) (allowed : List String) (depth : ℕ) (path : List String) (last : String) :
    (g.cyclesFrom start allowed depth path last).Pairwise (· < ·) := by
  have hhome : ∀ {last : String} {path : List String},
      (if (last, start) ∈ g.edges then [path.reverse] else []).Pairwise (· < ·) := by
    intro last path
    split_ifs <;> simp
  induction depth generalizing path last with
  | zero =>
    rw [cyclesFrom]
    exact hhome
  | succ depth ih =>
    rw [cyclesFrom, pairwise_append, pairwise_flatMap]
    refine ⟨hhome, ⟨fun n _ => ih (n :: path) n, ?_⟩, ?_⟩
    · refine ((pairwise_sortNames (nodup_successors h last)).filter _).imp fun {m n} hlt c hc d hd => ?_
      exact lt_of_mem_cyclesFrom hlt hc hd
    · -- the path alone comes before every cycle that goes on from it
      intro c hc d hd
      obtain ⟨n, -, hd⟩ := mem_flatMap.mp hd
      obtain ⟨more, rfl, -⟩ := mem_cyclesFrom_iff.mp hd
      obtain rfl : c = path.reverse := by
        split_ifs at hc
        · exact mem_singleton.mp hc
        · exact absurd hc not_mem_nil
      rw [reverse_cons, append_assoc]
      exact (append_nil _).symm.trans_lt (append_left_lt (nil_lt_cons _ _))

/-- **The search finds each cycle once and in order.** -/
lemma pairwise_cycles (h : g.WellFormed) : g.cycles.Pairwise (· < ·) := by
  rw [cycles, pairwise_flatMap]
  refine ⟨fun n _ => pairwise_cyclesFrom h _ _ _ _, (pairwise_sortNames h.nodes).imp fun {m n} hlt c hc d hd => ?_⟩
  obtain ⟨more, rfl, -⟩ := mem_cyclesFrom_iff.mp hc
  obtain ⟨more', rfl, -⟩ := mem_cyclesFrom_iff.mp hd
  exact cons_lt_cons_iff.mpr (.inl hlt)

/-! ## What is reported -/

/-- An edge of a list leads from one name to another, after the blanks at the ends of its names are dropped; both names
are there, and they differ. -/
def Leads (edges : List (String × String)) (s t : String) : Prop :=
  ∃ e ∈ edges, Text.trim e.1 = s ∧ Text.trim e.2 = t ∧ s ≠ "" ∧ t ≠ "" ∧ s ≠ t

lemma edge_ofEdges (edges : List (String × String)) : (ofEdges edges).Edge = Leads edges := by
  funext s t
  simp only [Edge, mem_edges_ofEdges, cleanEdge?_eq_some_iff, Leads]

/-- **What is reported of the cycles in a list of edges.** Nothing is reported exactly if no name leads back to itself.
Otherwise the elementary cycles, each told from its least node on, are put in order; the first ten of them are
reported, and of each the first eight nodes. So every entry has different nodes each of which leads to the next, and
an entry of fewer than eight nodes is a whole cycle: its last node leads to its first one. -/
theorem reported_cycles_sound_complete (edges : List (String × String)) :
    ((ofEdges edges).metrics.cycles = [] ↔ ∀ n, ¬ Relation.TransGen (Leads edges) n n) ∧
      (ofEdges edges).metrics.cycles.length ≤ 10 ∧
      (∀ entry ∈ (ofEdges edges).metrics.cycles, entry ≠ [] ∧ entry.length ≤ 8 ∧ entry.Nodup ∧
        entry.IsChain (Leads edges) ∧
          (entry.length < 8 → ∃ first ∈ entry.head?, ∃ last ∈ entry.getLast?, Leads edges last first)) ∧
      ∃ all : List (List String), all.Pairwise (· < ·) ∧
        (∀ c, c ∈ all ↔ ∃ start rest, c = start :: rest ∧ IsElementary (Leads edges) c ∧ ∀ n ∈ rest, start < n) ∧
        (ofEdges edges).metrics.cycles = (all.take 10).map (·.take 8) := by
  have hformed := wellFormed_ofEdges edges
  have hmem : ∀ c, c ∈ (ofEdges edges).cycles ↔
      ∃ start rest, c = start :: rest ∧ IsElementary (Leads edges) c ∧ ∀ n ∈ rest, start < n := by
    intro c
    rw [mem_cycles_iff hformed, edge_ofEdges]
  refine ⟨?_, ?_, ?_, (ofEdges edges).cycles, pairwise_cycles hformed, hmem, rfl⟩
  · have hnone : (ofEdges edges).metrics.cycles = [] ↔ (ofEdges edges).cycles = [] := by simp [metrics]
    rw [hnone, ← not_exists, ← exists_isElementary_iff, List.eq_nil_iff_forall_not_mem]
    constructor
    · rintro hempty ⟨c, hc⟩
      obtain ⟨start, rest, hleast, habove⟩ := hc.exists_least
      exact hempty _ ((hmem _).mpr ⟨start, rest, rfl, hleast, habove⟩)
    · intro hacyclic c hc
      obtain ⟨start, rest, -, hcycle, -⟩ := (hmem c).mp hc
      exact hacyclic ⟨c, hcycle⟩
  · simp [metrics]
  · intro entry hentry
    obtain ⟨c, hc, rfl⟩ := List.mem_map.mp hentry
    obtain ⟨start, rest, rfl, hcycle, -⟩ := (hmem c).mp (List.mem_of_mem_take hc)
    refine ⟨by simp, by simp, hcycle.1.sublist (List.take_sublist 8 _), hcycle.isChain.take 8, fun hshort => ?_⟩
    -- an entry of fewer than eight nodes is the whole cycle
    have hwhole : (start :: rest).take 8 = start :: rest := by
      rw [List.length_take] at hshort
      exact List.take_of_length_le (by omega)
    obtain ⟨last, hlast⟩ : ∃ last, (start :: rest).getLast? = some last :=
      ⟨_, List.getLast?_eq_some_getLast (List.cons_ne_nil start rest)⟩
    have hclosed : (start :: rest ++ [start]).IsChain (Leads edges) := hcycle.2
    rw [hwhole]
    exact ⟨start, rfl, last, hlast, (List.isChain_append.mp hclosed).2.2 last hlast start rfl⟩

end Graph

end CodeAudit
