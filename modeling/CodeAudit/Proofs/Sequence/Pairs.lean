import Mathlib.Data.List.Forall2
import Mathlib.Data.List.Sym

/-!
# Related items of a list

The pairs of a list are gone through in order: the first item with each one behind it, then the second item, and so on.
Those that are related are listed by their positions in lexicographic order. If the relation is symmetric, the same pairs
are related in every order of the list.

## Main definitions

* `Sequence.relatedPairs`, `Sequence.relatedPositions` — the related items of a list, and where they
  stand.

## Main results

* `Sequence.mem_relatedPositions` — two positions are listed if their items are related.
* `Sequence.perm_relatedPairs` — another order of the items gives the same unordered pairs.
-/

namespace CodeAudit.Sequence

open List

variable {α : Type} (r : α → α → Prop) [DecidableRel r]

/-- The pairs of related items of a list, of which the first stands before the second. -/
def relatedPairs : List α → List (α × α)
  | [] => []
  | a :: rest => (rest.filter fun b => r a b).map (a, ·) ++ relatedPairs rest

/-- Where the pairs of related items stand. -/
def relatedPositions : List α → List (ℕ × ℕ)
  | [] => []
  | a :: rest =>
    (rest.findIdxs fun b => r a b).map (fun j => (0, j + 1)) ++
      (relatedPositions rest).map fun p => (p.1 + 1, p.2 + 1)

variable {r}

/-- **Two positions are listed if their items are related.** -/
lemma mem_relatedPositions {xs : List α} {i j : ℕ} :
    (i, j) ∈ relatedPositions r xs ↔ i < j ∧ ∃ a b, xs[i]? = some a ∧ xs[j]? = some b ∧ r a b := by
  induction xs generalizing i j with
  | nil => simp [relatedPositions]
  | cons a rest ih =>
    have hrow (m : ℕ) : m ∈ rest.findIdxs (fun b => r a b) ↔ ∃ b, rest[m]? = some b ∧ r a b := by
      simp [List.getElem?_eq_some_iff]
    rw [relatedPositions, mem_append, mem_map, mem_map]
    -- a pair of the first item is in the first row, and any other among the pairs of the rest
    cases i with
    | zero =>
      cases j with
      | zero => simp
      | succ j => simp [hrow]
    | succ i =>
      cases j with
      | zero => simp
      | succ j => simp [ih]

lemma pairwise_relatedPositions (xs : List α) : (relatedPositions r xs).Pairwise (Prod.Lex (· < ·) (· < ·)) := by
  induction xs with
  | nil => exact Pairwise.nil
  | cons a rest ih =>
    rw [relatedPositions, pairwise_append, pairwise_map, pairwise_map]
    refine ⟨pairwise_findIdxs.imp fun h => .right _ (Nat.succ_lt_succ h), ih.imp fun h => ?_, ?_⟩
    · cases h with
      | left _ _ h => exact .left _ _ (Nat.succ_lt_succ h)
      | right _ h => exact .right _ (Nat.succ_lt_succ h)
    · intro p hp q hq
      obtain ⟨j, -, rfl⟩ := mem_map.mp hp
      obtain ⟨q, -, rfl⟩ := mem_map.mp hq
      exact .left _ _ (Nat.succ_pos _)

lemma forall₂_findIdxs (P : α → Bool) (xs : List α) :
    Forall₂ (fun j b => xs[j]? = some b) (xs.findIdxs P) (xs.filter P) := by
  induction xs with
  | nil => exact .nil
  | cons x rest ih =>
    have hlater : Forall₂ (fun j b => (x :: rest)[j]? = some b) (rest.findIdxs P 1) (rest.filter P) := by
      rw [findIdxs_start, forall₂_map_left_iff]
      exact ih.imp fun j b h => by rwa [getElem?_cons_succ]
    rw [findIdxs_cons, filter_cons]
    split_ifs with hx
    · exact .cons rfl hlater
    · exact hlater

/-- The items at the positions are the pairs. -/
lemma forall₂_relatedPositions (xs : List α) :
    Forall₂ (fun p ab => xs[p.1]? = some ab.1 ∧ xs[p.2]? = some ab.2) (relatedPositions r xs)
      (relatedPairs r xs) := by
  induction xs with
  | nil => exact .nil
  | cons a rest ih =>
    refine rel_append ?_ ?_
    · rw [forall₂_map_left_iff, forall₂_map_right_iff]
      exact (forall₂_findIdxs _ rest).imp fun j b h => ⟨rfl, h⟩
    · rw [forall₂_map_left_iff]
      exact ih.imp fun p ab h => h

lemma forall₂_comp {β γ : Type} {R : α → β → Prop} {S : β → γ → Prop} {xs : List α} {ys : List β} {zs : List γ}
    (h : Forall₂ R xs ys) (h' : Forall₂ S ys zs) : Forall₂ (fun x z => ∃ y, R x y ∧ S y z) xs zs := by
  induction h generalizing zs with
  | nil =>
    cases h'
    exact .nil
  | cons hxy _ ih =>
    cases h' with
    | cons hyz h' => exact .cons ⟨_, hxy, hyz⟩ (ih h')

/-- If the relation is symmetric and never holds of an item and itself, the related pairs without their order are the
related ones among all unordered pairs. -/
lemma map_mk_relatedPairs (hsymm : Std.Symm r) (hirrefl : ∀ a, ¬ r a a) (xs : List α) :
    (relatedPairs r xs).map (fun ab => s(ab.1, ab.2)) = xs.sym2.filter fun e => e ∈ Sym2.fromRel hsymm := by
  induction xs with
  | nil => rfl
  | cons a rest ih =>
    rw [relatedPairs, List.sym2, map_append, ih, filter_append, map_cons,
      filter_cons_of_neg (by simpa using hirrefl a), filter_map, map_map]
    rfl

/-- **Another order of the items gives the same unordered pairs.** -/
lemma perm_relatedPairs (hsymm : Std.Symm r) (hirrefl : ∀ a, ¬ r a a) {xs ys : List α} (h : xs.Perm ys) :
    ((relatedPairs r xs).map fun ab => s(ab.1, ab.2)).Perm ((relatedPairs r ys).map fun ab => s(ab.1, ab.2)) := by
  rw [map_mk_relatedPairs hsymm hirrefl, map_mk_relatedPairs hsymm hirrefl]
  exact h.sym2.filter _

/-- The two items at a pair of positions, in no order. -/
def itemsAt (xs : List α) (p : ℕ × ℕ) : Sym2 (Option α) :=
  s(xs[p.1]?, xs[p.2]?)

lemma map_itemsAt (xs : List α) :
    (relatedPositions r xs).map (itemsAt xs) =
      ((relatedPairs r xs).map fun ab => s(ab.1, ab.2)).map (Sym2.map some) := by
  rw [map_map]
  refine forall₂_eq_eq_eq ▸ ?_
  rw [forall₂_map_left_iff, forall₂_map_right_iff]
  refine (forall₂_relatedPositions xs).imp fun p ab h => ?_
  rw [itemsAt, h.1, h.2]
  rfl

end CodeAudit.Sequence
