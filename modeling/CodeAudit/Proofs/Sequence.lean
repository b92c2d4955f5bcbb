import Mathlib

/-!
# Leaving items out of rows

What is left of a row that was sorted or put together from parts does not depend on whether items are left out
before or after. The different items of a row stand in the order in which they are first seen.

## Main results

* `Sequence.eq_false_of_mem_splitOnP` — no piece of a row holds anything at which the row is cut.
* `Sequence.perm_flatMap_filter` — items that are listed key by key are all the items.
-/

namespace CodeAudit.Sequence

open List

variable {α β : Type}

variable {front back front' back' xs : List α} {c : α}

/-- A row has only one cut before which a condition holds and behind which it does not. -/
lemma append_inj_of_cut {P : α → Bool} (h : front ++ back = front' ++ back')
    (hfront : ∀ x ∈ front, P x = true) (hback : ∀ x ∈ back, P x = false)
    (hfront' : ∀ x ∈ front', P x = true) (hback' : ∀ x ∈ back', P x = false) :
    front = front' ∧ back = back' := by
  have hfilter : ∀ {a b : List α}, (∀ x ∈ a, P x = true) → (∀ x ∈ b, P x = false) → (a ++ b).filter P = a := by
    intro a b ha hb
    rw [filter_append, filter_eq_self.mpr ha, filter_eq_nil_iff.mpr (by simpa using hb),
      append_nil]
  have hsame : front = front' := by
    rw [← hfilter hfront hback, h, hfilter hfront' hback']
  subst hsame
  exact ⟨rfl, append_cancel_left h⟩

/-- What stands before and behind the first occurrence of an item. -/
lemma append_cons_inj (hfront : c ∉ front) (hfront' : c ∉ front')
    (h : front ++ c :: back = front' ++ c :: back') : front = front' ∧ back = back' := by
  induction front generalizing front' with
  | nil =>
    cases front' with
    | nil => exact ⟨rfl, (cons.inj h).2⟩
    | cons x xs => exact absurd (mem_cons.mpr (.inl (cons.inj h).1)) hfront'
  | cons x xs ih =>
    cases front' with
    | nil => exact absurd (mem_cons.mpr (.inl (cons.inj h).1.symm)) hfront
    | cons y ys =>
      obtain ⟨rfl, hrest⟩ := cons.inj h
      obtain ⟨rfl, hback⟩ := ih (not_mem_of_not_mem_cons hfront) (not_mem_of_not_mem_cons hfront') hrest
      exact ⟨rfl, hback⟩

/-- What stands before and behind the last occurrence of an item. -/
lemma append_cons_inj_last (hback : c ∉ back)
    (hback' : c ∉ back') (h : front ++ c :: back = front' ++ c :: back') : front = front' ∧ back = back' := by
  have hreverse : back.reverse ++ c :: front.reverse = back'.reverse ++ c :: front'.reverse := by
    simpa using congrArg reverse h
  obtain ⟨hsame, hsame'⟩ := append_cons_inj (by simpa using hback) (by simpa using hback') hreverse
  exact ⟨reverse_injective hsame', reverse_injective hsame⟩

/-- **Leaving items out before or after sorting is the same.**

**Proof sketch.** Induction on the row. Sorting a row puts its first item behind all items that are strictly below
it and before all others (`mergeSort_cons`). If the item is kept, it has the same cut in the row of kept
items, because a sorted row has only one. -/
lemma filter_mergeSort {le : α → α → Bool} (htrans : ∀ a b c, le a b → le b c → le a c)
    (htotal : ∀ a b, le a b || le b a) (P : α → Bool) (xs : List α) :
    (xs.mergeSort le).filter P = (xs.filter P).mergeSort le := by
  induction xs with
  | nil => simp
  | cons x xs ih =>
    obtain ⟨front, back, hsort, hrest, hfront⟩ := mergeSort_cons htrans htotal x xs
    have hsorted := pairwise_mergeSort htrans htotal (x :: xs)
    rw [hsort, pairwise_append, pairwise_cons] at hsorted
    rw [hrest, filter_append] at ih
    rw [hsort, filter_append]
    cases hx : P x with
    | false => rw [filter_cons_of_neg (by simp [hx]), filter_cons_of_neg (by simp [hx]), ih]
    | true =>
      obtain ⟨front', back', hsort', hrest', hfront'⟩ := mergeSort_cons htrans htotal x (xs.filter P)
      have hsorted' := pairwise_mergeSort htrans htotal (x :: xs.filter P)
      rw [hsort', pairwise_append, pairwise_cons] at hsorted'
      obtain ⟨hsame, hsame'⟩ := append_inj_of_cut (P := fun y => !le x y) (ih.trans hrest')
        (fun y hy => hfront y (mem_filter.mp hy).1)
        (fun y hy => by simpa using hsorted.2.1.1 y (mem_filter.mp hy).1)
        hfront' (fun y hy => by simpa using hsorted'.2.1.1 y hy)
      rw [filter_cons_of_pos hx, filter_cons_of_pos hx, hsort', hsame, hsame']

/-- Leaving items out of those that are there is leaving them out one by one. -/
lemma filter_filterMap_id (P : α → Bool) (xs : List (Option α)) :
    (xs.filterMap id).filter P = xs.flatMap fun x => x.toList.filter P := by
  induction xs with
  | nil => rfl
  | cons x xs ih =>
    rw [flatMap_cons, ← ih]
    cases x with
    | none => rfl
    | some a => rw [Option.toList_some, ← filter_append]; rfl

/-- Parts from which everything is left out can be left out first. -/
lemma filter_flatMap_filter {f : α → List β} {keep : α → Bool} {P : β → Bool}
    (h : ∀ x ∈ xs, keep x = false → ∀ y ∈ f x, P y = false) :
    (xs.flatMap f).filter P = ((xs.filter keep).flatMap f).filter P := by
  induction xs with
  | nil => rfl
  | cons x xs ih =>
    have ih := ih fun y hy => h y (mem_cons_of_mem _ hy)
    rw [flatMap_cons, filter_append, ih]
    cases hx : keep x with
    | true => rw [filter_cons_of_pos hx, flatMap_cons, filter_append]
    | false =>
      have hnone : (f x).filter P = [] := by
        rw [filter_eq_nil_iff]
        intro y hy
        simp [h x mem_cons_self hx y hy]
      rw [filter_cons_of_neg (by simp [hx]), hnone, nil_append]

/-- Parts that are empty without a condition are those of the items that meet it. -/
lemma flatMap_ite_nil (P : α → Bool) (f : α → List β) (xs : List α) :
    (xs.flatMap fun x => if P x then f x else []) = (xs.filter P).flatMap f := by
  induction xs with
  | nil => rfl
  | cons x xs ih =>
    rw [flatMap_cons, ih, filter_cons]
    split_ifs with hx
    · rw [flatMap_cons]
    · rw [nil_append]

/-- What is told of some of the items is told of each of these, in their order. -/
lemma forall₂_filterMap (f : α → Option β) (xs : List α) :
    Forall₂ (fun x y => f x = some y) (xs.filter fun x => (f x).isSome) (xs.filterMap f) := by
  induction xs with
  | nil => exact .nil
  | cons x xs ih =>
    cases hx : f x with
    | none => rwa [filter_cons_of_neg (by simp [hx]), filterMap_cons_none hx]
    | some y =>
      rw [filter_cons_of_pos (by simp [hx]), filterMap_cons_some hx]
      exact .cons hx ih

/-- Two comparisons that agree on the items of a row sort it alike. -/
lemma mergeSort_congr {le le' : α → α → Bool} (h : ∀ x ∈ xs, ∀ y ∈ xs, le x y = le' x y) :
    xs.mergeSort le = xs.mergeSort le' := by
  simpa using map_mergeSort (f := id) h

/-- **Items that are sorted by a text** which none of them shares with another rise strictly. -/
lemma pairwise_lt_mergeSort (key : α → String) (h : xs.Pairwise fun a b => key a ≠ key b) :
    (xs.mergeSort fun a b => !(key b < key a)).Pairwise fun a b => key a < key b := by
  have hsorted : (xs.mergeSort fun a b => !(key b < key a)).Pairwise fun a b => (!(key b < key a : Bool)) = true := by
    refine pairwise_mergeSort (fun a b c hab hbc => ?_) (fun a b => ?_) xs
    · simp only [Bool.not_eq_true', decide_eq_false_iff_not, not_lt] at hab hbc ⊢
      exact hab.trans hbc
    · simp only [Bool.or_eq_true, Bool.not_eq_true', decide_eq_false_iff_not, not_lt]
      exact le_total _ _
  have hdistinct := ((mergeSort_perm xs fun a b => !(key b < key a)).pairwise_iff
    fun {a b} hne => Ne.symm hne).mpr h
  refine (hsorted.and hdistinct).imp fun {a b} hab => ?_
  simp only [Bool.not_eq_true', decide_eq_false_iff_not, not_lt] at hab
  exact lt_of_le_of_ne hab.1 hab.2

/-! ## The greatest item -/

/-- The greatest of some items is at most a bound exactly if all of them are. -/
lemma foldl_max_le_iff [LinearOrder α] {a b : α} : xs.foldl max a ≤ b ↔ a ≤ b ∧ ∀ x ∈ xs, x ≤ b := by
  induction xs generalizing a with
  | nil => simp
  | cons x xs ih => simp [ih, and_assoc]

/-- The greatest of some items is one of them. -/
lemma foldl_max_mem [LinearOrder α] (xs : List α) (a : α) : xs.foldl max a ∈ a :: xs := by
  induction xs generalizing a with
  | nil => simp
  | cons x xs ih =>
    rw [foldl_cons, mem_cons, mem_cons]
    rcases mem_cons.mp (ih (max a x)) with heq | hmem
    · rcases max_choice a x with hmax | hmax
      · exact .inl (heq.trans hmax)
      · exact .inr (.inl (heq.trans hmax))
    · exact .inr (.inr hmem)

/-! ## Pieces -/

/-- **No piece of a row holds anything at which the row is cut.** -/
lemma eq_false_of_mem_splitOnP {p : α → Bool} {s piece : List α} (hpiece : piece ∈ s.splitOnP p)
    (hc : c ∈ piece) : p c = false := by
  induction s generalizing piece with
  | nil =>
    rw [splitOnP_nil, mem_singleton] at hpiece
    subst hpiece
    cases hc
  | cons x s ih =>
    rw [splitOnP_cons_eq_if_modifyHead] at hpiece
    split_ifs at hpiece with hx
    · rcases mem_cons.mp hpiece with rfl | hpiece
      · cases hc
      · exact ih hpiece hc
    · obtain ⟨first, rest, hsplit⟩ := exists_cons_of_ne_nil (splitOnP_ne_nil p s)
      rw [hsplit, modifyHead_cons] at hpiece
      rw [hsplit] at ih
      rcases mem_cons.mp hpiece with rfl | hpiece
      · rcases mem_cons.mp hc with rfl | hc
        · exact Bool.eq_false_iff.mpr hx
        · exact ih mem_cons_self hc
      · exact ih (mem_cons_of_mem _ hpiece) hc

/-! ## Different items -/

/-- The different items of a row with one more item at its end. -/
lemma eraseDups_concat [BEq α] [LawfulBEq α] (xs : List α) (x : α) :
    (xs ++ [x]).eraseDups = if x ∈ xs then xs.eraseDups else xs.eraseDups ++ [x] := by
  rw [eraseDups_append]
  split_ifs with hx
  · simp [removeAll, hx]
  · simp [removeAll, hx, eraseDups_cons]

/-- Different items are listed once. -/
lemma nodup_eraseDups [BEq α] [LawfulBEq α] (xs : List α) : xs.eraseDups.Nodup := by
  induction xs using reverseRecOn with
  | nil => simp
  | append_singleton xs x ih =>
    rw [eraseDups_concat]
    split_ifs with hx
    · exact ih
    · rw [← concat_eq_append]
      exact ih.concat (mt mem_eraseDups.mp hx)

/-- What is listed among different items is one of the items, whatever counts as equal. -/
lemma mem_of_mem_eraseDups [BEq α] {x : α} (h : x ∈ xs.eraseDups) : x ∈ xs := by
  induction hlength : xs.length using Nat.strong_induction_on generalizing xs with
  | _ n ih =>
    cases xs with
    | nil => simp at h
    | cons y xs =>
      rw [eraseDups_cons, mem_cons] at h
      rcases h with rfl | h
      · exact mem_cons_self
      · have hle := length_filter_le (fun z => !z == y) xs
        have hmem := ih _ (by simp only [← hlength, length_cons]; omega) h rfl
        exact mem_cons_of_mem _ (mem_of_mem_filter hmem)

/-- **Items that are listed key by key** are all the items, if every key that they have is listed once. -/
lemma perm_flatMap_filter [DecidableEq β] {keys : List β} (hkeys : keys.Nodup) (key : α → β)
    (h : ∀ x ∈ xs, key x ∈ keys) : (keys.flatMap fun k => xs.filter (key · == k)).Perm xs := by
  induction keys generalizing xs with
  | nil =>
    have hnone : xs = [] := eq_nil_iff_forall_not_mem.mpr fun x hx => not_mem_nil (h x hx)
    simp [hnone]
  | cons k keys ih =>
    obtain ⟨hk, hkeys⟩ := nodup_cons.mp hkeys
    have hothers : ∀ x ∈ xs.filter (fun x => !(key x == k)), key x ∈ keys := by
      intro x hx
      obtain ⟨hx, hne⟩ := mem_filter.mp hx
      exact (mem_cons.mp (h x hx)).resolve_left (by simpa using hne)
    -- the items of the other keys are the same among those that do not have the first key
    have hrest : (keys.flatMap fun k' => xs.filter (key · == k')) =
        keys.flatMap fun k' => (xs.filter fun x => !(key x == k)).filter (key · == k') := by
      refine flatMap_congr fun k' hk' => ?_
      rw [filter_filter]
      refine filter_congr fun x _ => ?_
      have hne : k' ≠ k := fun heq => hk (heq ▸ hk')
      by_cases hx : key x = k'
      · simp [hx, hne]
      · simp [hx]
    rw [flatMap_cons, hrest]
    exact ((ih hkeys hothers).append_left _).trans (filter_append_perm (key · == k) xs)

/-- Nothing is found under a key that no entry has. -/
lemma lookup_eq_none_iff_not_mem [BEq α] [LawfulBEq α] {entries : List (α × β)} {k : α} :
    entries.lookup k = none ↔ k ∉ entries.map Prod.fst := by
  rw [lookup_eq_none_iff]
  simp only [bne_iff_ne, ne_eq, mem_map, not_exists, not_and]
  constructor
  · intro h entry hentry heq
    exact h entry hentry heq.symm
  · intro h entry hentry heq
    exact h entry hentry heq.symm

end CodeAudit.Sequence
