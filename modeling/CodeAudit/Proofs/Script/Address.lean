import CodeAudit.Proofs.Script.Tree
import CodeAudit.Proofs.Sequence

/-!
# Addresses of nodes

Equal nodes may stand at several places of a tree. A place is told by its address: the numbers of the children on the
way down from the root. A node stands above another exactly if its address is a proper beginning of the other one, and
a depth-first walk that meets every node before its children goes through the addresses in lexicographic order.

## Main definitions

* `Script.Node.at?` — the node at an address.
* `Script.Node.addresses` — the addresses of a tree, each before those below it.

## Main results

* `Script.Node.filterMap_at?_addresses` — the nodes at the listed addresses are those of a depth-first walk.
* `Script.Node.exists_addresses_levelOrder` — a breadth-first walk goes through the addresses in some order.
-/

namespace CodeAudit.Script.Node

open List

/-- The node at an address. -/
def at? (n : Node) : List ℕ → Option Node
  | [] => some n
  | i :: p => n.children[i]?.bind fun c => c.at? p

/-- The addresses of a tree, each before those below it. -/
def addresses : Node → List (List ℕ)
  | mk _ _ _ children => [] :: addressesFrom 0 children
where
  /-- The addresses of a row of trees whose first one has the number `i`. -/
  addressesFrom (i : ℕ) : List Node → List (List ℕ)
    | [] => []
    | n :: rest => (addresses n).map (i :: ·) ++ addressesFrom (i + 1) rest

@[simp] lemma at?_nil (n : Node) : n.at? [] = some n := rfl

/-- Below a child, a tree has what the child has. -/
lemma at?_cons_of_getElem? {n c : Node} {i : ℕ} (h : n.children[i]? = some c) (p : List ℕ) :
    n.at? (i :: p) = c.at? p := by
  rw [at?, h, Option.bind_some]

lemma at?_cons_eq_some_iff {n m : Node} {i : ℕ} {p : List ℕ} :
    n.at? (i :: p) = some m ↔ ∃ c, n.children[i]? = some c ∧ c.at? p = some m := by
  rw [at?, Option.bind_eq_some_iff]

/-- The node behind two ways is the one behind the second way from the node behind the first. -/
lemma at?_append (n : Node) (q p : List ℕ) : n.at? (q ++ p) = (n.at? q).bind fun c => c.at? p := by
  induction q generalizing n with
  | nil => rfl
  | cons i q ih =>
    rw [cons_append, at?, at?]
    cases n.children[i]? with
    | none => rfl
    | some c => exact ih c

lemma addressesFrom_eq (i : ℕ) (row : List Node) :
    addresses.addressesFrom i row = (row.zipIdx i).flatMap fun c => c.1.addresses.map (c.2 :: ·) := by
  induction row generalizing i with
  | nil => rfl
  | cons n row ih => rw [addresses.addressesFrom, zipIdx_cons, flatMap_cons, ih]

/-- The addresses of a tree are its own and those below its children. -/
lemma addresses_eq (n : Node) :
    n.addresses = [] :: n.children.zipIdx.flatMap fun c => c.1.addresses.map (c.2 :: ·) := by
  cases n with
  | mk part shape extent children => rw [addresses, addressesFrom_eq, Node.children]

/-- **All addresses that lead to a node are listed.** -/
lemma mem_addresses_iff {n : Node} {p : List ℕ} : p ∈ n.addresses ↔ ∃ m, n.at? p = some m := by
  induction n using induction_children generalizing p with
  | step n ih =>
    rw [addresses_eq]
    cases p with
    | nil => simp
    | cons i p =>
      simp only [mem_cons, reduceCtorEq, false_or, mem_flatMap, mem_map, cons.injEq, Prod.exists,
        mem_zipIdx_iff_getElem?]
      constructor
      · rintro ⟨c, _, hc, _, hp, rfl, rfl⟩
        obtain ⟨m, hm⟩ := (ih c (mem_of_getElem? hc)).mp hp
        exact ⟨m, (at?_cons_of_getElem? hc _).trans hm⟩
      · rintro ⟨m, hm⟩
        obtain ⟨c, hc, hm⟩ := at?_cons_eq_some_iff.mp hm
        exact ⟨c, i, hc, p, (ih c (mem_of_getElem? hc)).mpr ⟨m, hm⟩, rfl, rfl⟩

/-- **The addresses are listed in lexicographic order**, each of them once.

**Proof sketch.** The empty address is below all others. Those that begin with one number come before those that begin
with a greater one, and among those that begin with the same number the rest decides. -/
lemma pairwise_addresses (n : Node) : n.addresses.Pairwise (· < ·) := by
  induction n using induction_children with
  | step n ih =>
    rw [addresses_eq, pairwise_cons, pairwise_flatMap]
    refine ⟨fun p hp => ?_, fun c hc => ?_, ?_⟩
    · obtain ⟨c, -, hp⟩ := mem_flatMap.mp hp
      obtain ⟨p, -, rfl⟩ := mem_map.mp hp
      exact nil_lt_cons _ _
    · have hchild := ih c.1 (mem_of_getElem? (mem_zipIdx_iff_getElem?.mp hc))
      exact pairwise_map.mpr (hchild.imp fun h => cons_lt_cons_iff.mpr (.inr ⟨rfl, h⟩))
    · have hnumbers : n.children.zipIdx.Pairwise fun c d => c.2 < d.2 := by
        rw [← pairwise_map (f := Prod.snd), zipIdx_map_snd]
        exact pairwise_lt_range'
      refine hnumbers.imp fun {c d} hcd => ?_
      intro p hp q hq
      obtain ⟨p, -, rfl⟩ := mem_map.mp hp
      obtain ⟨q, -, rfl⟩ := mem_map.mp hq
      exact cons_lt_cons_iff.mpr (.inl hcd)

/-- What is told of the addresses of a tree is told of its own and of those below each child. -/
lemma filterMap_addresses {β : Type} {n : Node} {f : List ℕ → Option β} {g : Node → List ℕ → Option β}
    (h : ∀ c i, n.children[i]? = some c → ∀ p, f (i :: p) = g c p) :
    n.addresses.filterMap f = (f []).toList ++ n.children.flatMap fun c => c.addresses.filterMap (g c) := by
  have hbelow : (n.children.zipIdx.flatMap fun c => c.1.addresses.map (c.2 :: ·)).filterMap f =
      n.children.flatMap fun c => c.addresses.filterMap (g c) := by
    rw [filterMap_flatMap]
    nth_rewrite 2 [← zipIdx_map_fst 0 n.children]
    rw [flatMap_map]
    refine flatMap_congr fun c hc => ?_
    rw [filterMap_map]
    exact filterMap_congr fun p _ => h c.1 c.2 (mem_zipIdx_iff_getElem?.mp hc) p
  rw [addresses_eq, filterMap_cons, hbelow]
  cases f [] <;> rfl

lemma preorderList_eq (row : List Node) : preorder.preorderList row = row.flatMap preorder := by
  induction row with
  | nil => rfl
  | cons n row ih => rw [preorder.preorderList, flatMap_cons, ih]

/-- **The nodes at the listed addresses are those of a depth-first walk.** -/
lemma filterMap_at?_addresses (n : Node) : n.addresses.filterMap n.at? = n.preorder := by
  induction n using induction_children with
  | step n ih =>
    rw [filterMap_addresses (g := at?) fun c i hc p => at?_cons_of_getElem? hc p, flatMap_congr ih]
    cases n with
    | mk part shape extent children =>
      rw [preorder, preorderList_eq]
      rfl

lemma nodup_addresses (n : Node) : n.addresses.Nodup :=
  (pairwise_addresses n).imp fun h => h.ne

/-- **A breadth-first walk goes through the addresses in some order**, each of them once. -/
lemma exists_addresses_levelOrder (n : Node) :
    ∃ row, row.Perm n.addresses ∧ Forall₂ (fun p m => n.at? p = some m) row n.levelOrder := by
  have hall : n.addresses.filter (fun p => (n.at? p).isSome) = n.addresses := by
    rw [filter_eq_self]
    intro p hp
    obtain ⟨m, hm⟩ := mem_addresses_iff.mp hp
    rw [hm]
    rfl
  have hpre : Forall₂ (fun p m => n.at? p = some m) n.addresses n.preorder := by
    have hlisted := Sequence.forall₂_filterMap n.at? n.addresses
    rwa [hall, filterMap_at?_addresses] at hlisted
  obtain ⟨row, hrow, hperm⟩ := perm_comp_forall₂ n.levelOrder_perm hpre.flip
  exact ⟨row, hperm, hrow.flip⟩

/-- The nodes of a kind, met by a breadth-first walk, stand at the addresses of nodes of this kind, each of them once. -/
lemma exists_addresses_filter (n : Node) (keep : Node → Bool) :
    ∃ row : List (List ℕ), row.Nodup ∧ (∀ p, p ∈ row ↔ ∃ m, n.at? p = some m ∧ keep m = true) ∧
      Forall₂ (fun p m => n.at? p = some m) row (n.levelOrder.filter keep) := by
  obtain ⟨row, hperm, hrow⟩ := n.exists_addresses_levelOrder
  have hany : ∀ p m, n.at? p = some m → ((n.at? p).any keep = true ↔ keep m = true) := by
    intro p m hm
    rw [hm, Option.any_some]
  refine ⟨row.filter fun p => (n.at? p).any keep, (hperm.nodup_iff.mpr n.nodup_addresses).filter _, fun p => ?_,
    rel_filter (fun p m => hany p m) hrow⟩
  rw [mem_filter, hperm.mem_iff, mem_addresses_iff]
  constructor
  · rintro ⟨⟨m, hm⟩, hkeep⟩
    exact ⟨m, hm, (hany p m hm).mp hkeep⟩
  · rintro ⟨m, hm, hkeep⟩
    exact ⟨⟨m, hm⟩, (hany p m hm).mpr hkeep⟩

end CodeAudit.Script.Node
