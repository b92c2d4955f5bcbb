import CodeAudit.Proofs.Outcome
import CodeAudit.Proofs.Sequence
import CodeAudit.Sequence.Sort

/-!
# Sorting with comparisons that succeed

If every comparison of two items succeeds and compares their ranks, sorting by insertion succeeds and gives the items
in the order of their ranks, where items of one rank keep their order: it is `List.mergeSort`.

## Main definitions

* `Sequence.Compares` — comparisons that succeed and compare ranks.
* `Sequence.IsStable` — a row in the order of ranks in which items of one rank have kept their order.

## Main results

* `Sequence.exists_position` — bisection finds where an item belongs.
* `Sequence.sortM_eq`, `Sequence.sortByKeyM_eq`, `Sequence.sortDownM_eq` — sorting is stable.
-/

namespace CodeAudit.Sequence

open List

variable {ε α β κ : Type} [LinearOrder β]

variable {x y : α} {k : ℕ} {key : α → κ}

variable {less : κ → κ → Except ε Bool} {xs : List α} {rank : α → β}

/-- Comparisons of items of a row succeed and compare ranks. -/
def Compares (less : α → α → Except ε Bool) (rank : α → β) (xs : List α) : Prop :=
  ∀ x ∈ xs, ∀ y ∈ xs, less x y = .ok (decide (rank x < rank y))

/-! ## Stable orders -/

/-- **A stable order of a row**: the ranks rise, and items of one rank are in the order in which the row has them. -/
structure IsStable (rank : α → β) (xs sorted : List α) : Prop where
  rising : sorted.Pairwise (rank · ≤ rank ·)
  kept : ∀ r, sorted.filter (rank · = r) = xs.filter (rank · = r)

namespace IsStable

variable {rank : α → β} {xs sorted sorted' : List α}

lemma mem_iff (h : IsStable rank xs sorted) : x ∈ sorted ↔ x ∈ xs := by
  have hfilter : x ∈ sorted.filter (rank · = rank x) ↔ x ∈ xs.filter (rank · = rank x) := by rw [h.kept]
  simpa using hfilter

/-- **A row has only one stable order.**

**Proof sketch.** Induction on one of the orders. Each of the two first items is at most the other, so they have one
rank; and they are the first items of that rank. -/
lemma unique (h : IsStable rank xs sorted) (h' : IsStable rank xs sorted') : sorted = sorted' := by
  have hkept : ∀ r, sorted.filter (rank · = r) = sorted'.filter (rank · = r) := fun r => (h.kept r).trans (h'.kept r).symm
  have hrising := h.rising
  have hrising' := h'.rising
  clear h h'
  induction sorted generalizing sorted' with
  | nil =>
    cases sorted' with
    | nil => rfl
    | cons y ys => simpa using hkept (rank y)
  | cons x xs ih =>
    cases sorted' with
    | nil => simpa using hkept (rank x)
    | cons y ys =>
      have hfirst : ∀ {x y : α} {xs : List α}, (x :: xs).Pairwise (rank · ≤ rank ·) →
          y ∈ (x :: xs).filter (rank · = rank y) → rank x ≤ rank y := by
        intro x y xs h hmem
        rcases mem_cons.mp (mem_of_mem_filter hmem) with heq | hmem
        · rw [heq]
        · exact (pairwise_cons.mp h).1 y hmem
      have hrank : rank x = rank y :=
        le_antisymm (hfirst hrising (by rw [hkept]; simp)) (hfirst hrising' (by rw [← hkept]; simp))
      rw [pairwise_cons] at hrising hrising'
      obtain ⟨rfl, -⟩ : x = y ∧ xs.filter (rank · = rank x) = ys.filter (rank · = rank x) := by
        simpa [hrank] using hkept (rank x)
      refine congrArg (x :: ·) (ih (fun r => ?_) hrising.2 hrising'.2)
      by_cases hr : rank x = r
      · simpa [hr] using hkept r
      · simpa [hr] using hkept r

end IsStable

/-- Sorting a row gives its stable order. -/
lemma isStable_mergeSort (rank : α → β) (xs : List α) :
    IsStable rank xs (xs.mergeSort fun x y => decide (rank x ≤ rank y)) := by
  have htrans : ∀ a b c : α, decide (rank a ≤ rank b) → decide (rank b ≤ rank c) → decide (rank a ≤ rank c) := by
    intro a b c hab hbc
    simp only [decide_eq_true_eq] at hab hbc ⊢
    exact hab.trans hbc
  have htotal : ∀ a b : α, decide (rank a ≤ rank b) || decide (rank b ≤ rank a) := by
    intro a b
    simpa using le_total (rank a) (rank b)
  refine ⟨by simpa using pairwise_mergeSort htrans htotal xs, fun r => ?_⟩
  -- items of one rank are in order already
  rw [filter_mergeSort htrans htotal]
  refine mergeSort_of_pairwise (pairwise_of_forall_mem_list fun x hx y hy => ?_)
  have hxr : rank x = r := by simpa using (mem_filter.mp hx).2
  have hyr : rank y = r := by simpa using (mem_filter.mp hy).2
  simp [hxr, hyr]

/-! ## The first items of a stable order -/

/-- **Neighbours that change places** change nothing among the first items of the stable order, unless they have one rank
and are among them. -/
lemma take_mergeSort_swap [DecidableEq α] (rank : α → β) {front back : List α}
    (hnodup : (front ++ x :: y :: back).Nodup)
    (h : rank x = rank y →
      x ∉ ((front ++ x :: y :: back).mergeSort fun a b => decide (rank a ≤ rank b)).take k ∧
        y ∉ ((front ++ x :: y :: back).mergeSort fun a b => decide (rank a ≤ rank b)).take k) :
    ((front ++ y :: x :: back).mergeSort fun a b => decide (rank a ≤ rank b)).take k =
      ((front ++ x :: y :: back).mergeSort fun a b => decide (rank a ≤ rank b)).take k := by
  by_cases hrank : rank x = rank y
  · -- the exchange of the two keeps all ranks, so it can be made before or after sorting
    obtain ⟨hx, hy⟩ := h hrank
    have hkeeps : ∀ z, rank (Equiv.swap x y z) = rank z := by
      intro z
      rw [Equiv.swap_apply_def]
      split_ifs with hzx hzy
      · rw [hzx, hrank]
      · rw [hzy, hrank]
      · rfl
    have hmap : (front ++ x :: y :: back).map (Equiv.swap x y) = front ++ y :: x :: back := by
      have hfix : ∀ zs : List α, x ∉ zs → y ∉ zs → zs.map (Equiv.swap x y) = zs := by
        intro zs hx hy
        refine (map_congr_left fun z hz => ?_).trans (map_id zs)
        exact Equiv.swap_apply_of_ne_of_ne (fun h => hx (h ▸ hz)) (fun h => hy (h ▸ hz))
      have hapart : x ∉ front ∧ y ∉ front ∧ x ∉ back ∧ y ∉ back := by
        simp only [nodup_append, nodup_cons, mem_cons, not_or] at hnodup
        refine ⟨fun hmem => ?_, fun hmem => ?_, hnodup.2.1.1.2, hnodup.2.1.2.1⟩
        · exact hnodup.2.2 x hmem x (.inl rfl) rfl
        · exact hnodup.2.2 y hmem y (.inr (.inl rfl)) rfl
      obtain ⟨hxf, hyf, hxb, hyb⟩ := hapart
      rw [map_append, map_cons, map_cons, Equiv.swap_apply_left, Equiv.swap_apply_right, hfix front hxf hyf,
        hfix back hxb hyb]
    rw [← hmap, ← map_mergeSort fun a _ b _ => by rw [hkeeps, hkeeps], ← map_take]
    refine (map_congr_left fun z hz => ?_).trans (map_id _)
    exact Equiv.swap_apply_of_ne_of_ne (fun h => hx (h ▸ hz)) (fun h => hy (h ▸ hz))
  · -- no rank sees the exchange
    have hstable := isStable_mergeSort rank (front ++ y :: x :: back)
    have hkept : ∀ r, (front ++ y :: x :: back).filter (rank · = r) = (front ++ x :: y :: back).filter (rank · = r) := by
      intro r
      rw [filter_append, filter_append]
      by_cases hx : rank x = r
      · have hy : rank y ≠ r := fun hy => hrank (hx.trans hy.symm)
        simp [hx, hy]
      · simp [filter_cons, hx]
    have hsame : IsStable rank (front ++ x :: y :: back)
        ((front ++ y :: x :: back).mergeSort fun a b => decide (rank a ≤ rank b)) :=
      ⟨hstable.rising, fun r => (hstable.kept r).trans (hkept r)⟩
    rw [hsame.unique (isStable_mergeSort rank _)]

/-- Of a pair in a row without repetitions, both are among the first items if the second one is. -/
lemma pair_sublist_take (hnodup : xs.Nodup) (h : [x, y].Sublist xs)
    (hy : y ∈ xs.take k) : [x, y].Sublist (xs.take k) := by
  rw [← take_append_drop k xs] at h hnodup
  obtain ⟨front, back, heq, hfront, hback⟩ := sublist_append_iff.mp h
  have hout : y ∉ back := fun hmem => disjoint_of_nodup_append hnodup hy (hback.subset hmem)
  obtain rfl | ⟨init, last, rfl⟩ := eq_nil_or_concat' back
  · rw [heq, append_nil]
    exact hfront
  · obtain rfl : y = last := by simpa [← append_assoc] using congrArg getLast? heq
    exact absurd (by simp) hout

/-- Two items of a row without repetitions stand in one order only. -/
lemma not_sublist_swap (hnodup : xs.Nodup) (h : [x, y].Sublist xs) : ¬ [y, x].Sublist xs := by
  induction xs with
  | nil => cases h
  | cons z zs ih =>
    rw [nodup_cons] at hnodup
    intro h'
    cases h with
    | cons _ h =>
      cases h' with
      | cons _ h' => exact ih hnodup.2 h h'
      | cons_cons _ h' => exact hnodup.1 (h.subset (by simp))
    | cons_cons _ h =>
      cases h' with
      | cons _ h' => exact hnodup.1 (h'.subset (by simp))
      | cons_cons _ h' => exact hnodup.1 (h.subset (by simp))

/-! ## Insertion -/

section Insertion

variable {less : α → α → Except ε Bool} {rank : α → β}

variable {sorted xs : List α}

/-- **Bisection finds where an item belongs**: behind everything that is not above it.

**Proof sketch.** Induction on the distance of the two positions. Nothing before the low one is above the item, and
everything from the high one on is. -/
lemma exists_position {item : α}
    (hless : ∀ x ∈ sorted, less item x = .ok (decide (rank item < rank x)))
    (hrising : sorted.Pairwise (rank · ≤ rank ·)) (low high : ℕ) (hhigh : high ≤ sorted.length)
    (hbefore : ∀ x ∈ sorted.take low, rank x ≤ rank item) (hbehind : ∀ x ∈ sorted.drop high, rank item < rank x)
    (hle : low ≤ high) :
    ∃ i, position less item sorted low high = .ok i ∧ (∀ x ∈ sorted.take i, rank x ≤ rank item) ∧
      ∀ x ∈ sorted.drop i, rank item < rank x := by
  induction hd : high - low using Nat.strong_induction_on generalizing low high with
  | _ d ih =>
    rw [position]
    split_ifs with hlt
    · obtain ⟨mid, hmid⟩ : ∃ mid, mid = low + (high - low) / 2 := ⟨_, rfl⟩
      have hlength : mid < sorted.length := by omega
      rw [← hmid, getElem?_eq_getElem hlength]
      simp only [hless _ (getElem_mem hlength), bind, Except.bind, decide_eq_true_eq]
      have hcut : sorted.drop mid = sorted[mid] :: sorted.drop (mid + 1) := drop_eq_getElem_cons hlength
      split_ifs with hbelow
      · refine ih (mid - low) (by omega) low mid (by omega) hbefore ?_ (by omega) rfl
        intro x hx
        have hrest := hrising.sublist (drop_sublist mid sorted)
        rw [hcut, pairwise_cons] at hrest
        rw [hcut] at hx
        rcases mem_cons.mp hx with rfl | hx
        · exact hbelow
        · exact hbelow.trans_le (hrest.1 x hx)
      · refine ih (high - (mid + 1)) (by omega) (mid + 1) high hhigh ?_ hbehind (by omega) rfl
        intro x hx
        have hfront := hrising.sublist (take_sublist (mid + 1) sorted)
        rw [take_succ_eq_append_getElem hlength] at hfront hx
        rcases mem_append.mp hx with hx | hx
        · exact ((pairwise_append.mp hfront).2.2 x hx _ (mem_singleton_self _)).trans (not_lt.mp hbelow)
        · rw [mem_singleton.mp hx]
          exact not_lt.mp hbelow
    · obtain rfl : low = high := by omega
      exact ⟨low, rfl, hbefore, hbehind⟩

/-- Putting an item into the stable order of a row gives the stable order of the row with the item behind it. -/
lemma IsStable.exists_insertSorted (h : IsStable rank xs sorted) (item : α)
    (hless : ∀ x ∈ sorted, less item x = .ok (decide (rank item < rank x))) :
    ∃ sorted', insertSorted less sorted item = .ok sorted' ∧ IsStable rank (xs ++ [item]) sorted' := by
  obtain ⟨i, hi, hbefore, hbehind⟩ := exists_position hless h.rising 0 sorted.length le_rfl (by simp) (by simp)
    (Nat.zero_le _)
  refine ⟨sorted.take i ++ item :: sorted.drop i, by rw [insertSorted, hi]; rfl, ?_, fun r => ?_⟩
  · have hcut := h.rising
    rw [← take_append_drop i sorted, pairwise_append] at hcut
    rw [pairwise_append, pairwise_cons]
    refine ⟨hcut.1, ⟨fun x hx => (hbehind x hx).le, hcut.2.1⟩, fun x hx y hy => ?_⟩
    rcases mem_cons.mp hy with rfl | hy
    · exact hbefore x hx
    · exact hcut.2.2 x hx y hy
  · have hkept := h.kept r
    rw [← take_append_drop i sorted, filter_append] at hkept
    rw [filter_append, filter_append, filter_cons, ← hkept]
    by_cases hr : rank item = r
    · -- nothing behind the item has its rank
      have hnone : (sorted.drop i).filter (rank · = r) = [] := by
        rw [filter_eq_nil_iff]
        intro x hx
        simpa using (hr ▸ hbehind x hx).ne'
      simp [hr, hnone]
    · simp [hr]

/-- Putting items one after another into a stable order. -/
lemma IsStable.exists_foldlM (h : IsStable rank xs sorted) (left : List α)
    (hless : Compares less rank (xs ++ left)) :
    ∃ sorted', left.foldlM (insertSorted less) sorted = .ok sorted' ∧ IsStable rank (xs ++ left) sorted' := by
  induction left generalizing xs sorted with
  | nil => exact ⟨sorted, rfl, by rwa [append_nil]⟩
  | cons item left ih =>
    obtain ⟨next, hnext, hstable⟩ := h.exists_insertSorted item fun x hx =>
      hless item (by simp) x (mem_append_left _ (h.mem_iff.mp hx))
    obtain ⟨sorted', hfold, hstable'⟩ := ih hstable (by simpa using hless)
    refine ⟨sorted', ?_, by simpa using hstable'⟩
    rw [foldlM_cons, hnext]
    exact hfold

/-! ## Runs -/

lemma pairwise_le_cons {run : List α} (hxy : rank x ≤ rank y) (h : (y :: run).Pairwise (rank · ≤ rank ·)) :
    (x :: y :: run).Pairwise (rank · ≤ rank ·) :=
  have : IsTrans α (rank · ≤ rank ·) := ⟨fun _ _ _ => le_trans⟩
  pairwise_cons_cons_iff_of_trans.mpr ⟨hxy, h⟩

lemma pairwise_gt_cons {run : List α} (hxy : rank x > rank y) (h : (y :: run).Pairwise (rank · > rank ·)) :
    (x :: y :: run).Pairwise (rank · > rank ·) :=
  have : IsTrans α (rank · > rank ·) := ⟨fun _ _ _ => gt_trans⟩
  pairwise_cons_cons_iff_of_trans.mpr ⟨hxy, h⟩

/-- The rising run at the front of a row. -/
lemma exists_risingRun {last : α} {rest : List α} (hless : Compares less rank (last :: rest)) :
    ∃ run left, risingRun less last rest = .ok (run, left) ∧ rest = run ++ left ∧
      (last :: run).Pairwise (rank · ≤ rank ·) := by
  induction rest generalizing last with
  | nil => exact ⟨[], [], rfl, rfl, by simp⟩
  | cons x rest ih =>
    rw [risingRun, hless x (by simp) last (by simp)]
    by_cases hx : rank x < rank last
    · exact ⟨[], x :: rest, by simp [hx, bind, Except.bind, pure, Except.pure], rfl, by simp⟩
    · obtain ⟨run, left, hrun, rfl, hrising⟩ := ih fun a ha b hb =>
        hless a (mem_cons_of_mem _ ha) b (mem_cons_of_mem _ hb)
      exact ⟨x :: run, left, by simp [hx, hrun, bind, Except.bind, pure, Except.pure], rfl,
        pairwise_le_cons (not_lt.mp hx) hrising⟩

/-- The falling run at the front of a row. -/
lemma exists_fallingRun {last : α} {rest : List α} (hless : Compares less rank (last :: rest)) :
    ∃ run left, fallingRun less last rest = .ok (run, left) ∧ rest = run ++ left ∧
      (last :: run).Pairwise (rank · > rank ·) := by
  induction rest generalizing last with
  | nil => exact ⟨[], [], rfl, rfl, by simp⟩
  | cons x rest ih =>
    rw [fallingRun, hless x (by simp) last (by simp)]
    by_cases hx : rank x < rank last
    · obtain ⟨run, left, hrun, rfl, hfalling⟩ := ih fun a ha b hb =>
        hless a (mem_cons_of_mem _ ha) b (mem_cons_of_mem _ hb)
      exact ⟨x :: run, left, by simp [hx, hrun, bind, Except.bind, pure, Except.pure], rfl,
        pairwise_gt_cons hx hfalling⟩
    · exact ⟨[], x :: rest, by simp [hx, bind, Except.bind, pure, Except.pure], rfl, by simp⟩

/-- A falling row turned around is its stable order: no two of its items have one rank. -/
lemma isStable_reverse (h : xs.Pairwise (rank · > rank ·)) : IsStable rank xs xs.reverse where
  rising := pairwise_reverse.mpr (h.imp fun hgt => hgt.le)
  kept r := by
    rw [filter_reverse]
    have hfalling := h.sublist (filter_sublist (p := fun x => decide (rank x = r)))
    match hfilter : xs.filter (rank · = r) with
    | [] => rfl
    | [x] => rfl
    | x :: y :: rest =>
      have hmem : ∀ z ∈ x :: y :: rest, rank z = r := by
        intro z hz
        rw [← hfilter] at hz
        exact of_decide_eq_true (mem_filter.mp hz).2
      rw [hfilter, pairwise_cons] at hfalling
      have hxy := hfalling.1 y (by simp)
      rw [hmem x (by simp), hmem y (by simp)] at hxy
      exact absurd hxy (lt_irrefl r)

end Insertion

/-! ## Sorting -/

/-- **Sorting is stable.** -/
theorem sortM_eq {less : α → α → Except ε Bool} (hless : Compares less rank xs) :
    sortM less xs = .ok (xs.mergeSort fun x y => decide (rank x ≤ rank y)) := by
  have hstable : ∃ sorted, sortM less xs = .ok sorted ∧ IsStable rank xs sorted := by
    match xs, hless with
    | [], _ => exact ⟨[], rfl, by simp, fun r => rfl⟩
    | [x], _ => exact ⟨[x], rfl, by simp, fun r => rfl⟩
    | x :: y :: rest, hless =>
      have htail : Compares less rank (y :: rest) := fun a ha b hb =>
        hless a (mem_cons_of_mem _ ha) b (mem_cons_of_mem _ hb)
      rw [sortM, hless y (by simp) x (by simp)]
      by_cases hyx : rank y < rank x
      · obtain ⟨run, left, hrun, rfl, hfalling⟩ := exists_fallingRun htail
        obtain ⟨sorted, hfold, hsorted⟩ := (isStable_reverse (pairwise_gt_cons hyx hfalling)).exists_foldlM left hless
        exact ⟨sorted, by simpa [hyx, hrun, bind, Except.bind] using hfold, hsorted⟩
      · obtain ⟨run, left, hrun, rfl, hrising⟩ := exists_risingRun htail
        have hfront := pairwise_le_cons (not_lt.mp hyx) hrising
        obtain ⟨sorted, hfold, hsorted⟩ := IsStable.exists_foldlM ⟨hfront, fun r => rfl⟩ left hless
        exact ⟨sorted, by simpa [hyx, hrun, bind, Except.bind] using hfold, hsorted⟩
  obtain ⟨sorted, hsorted, hstable⟩ := hstable
  rw [hsorted, hstable.unique (isStable_mergeSort rank xs)]

/-- **Sorting by keys is stable.** -/
theorem sortByKeyM_eq
    (hless : Compares (fun x y => less (key x) (key y)) rank xs) :
    sortByKeyM less key xs = .ok (xs.mergeSort fun x y => decide (rank x ≤ rank y)) := by
  have hpairs : Compares (fun a b : κ × α => less a.1 b.1) (fun a => rank a.2) (xs.map fun x => (key x, x)) := by
    intro a ha b hb
    obtain ⟨x, hx, rfl⟩ := mem_map.mp ha
    obtain ⟨y, hy, rfl⟩ := mem_map.mp hb
    exact hless x hx y hy
  rw [sortByKeyM, sortM_eq hpairs]
  change Except.ok _ = Except.ok _
  rw [map_mergeSort (s := fun x y => decide (rank x ≤ rank y)) fun a _ b _ => rfl, map_map]
  simp [Function.comp_def]

/-- **Sorting by keys from the greatest down is stable.** -/
theorem sortDownM_eq
    (hless : Compares (fun x y => less (key x) (key y)) rank xs) :
    sortDownM less key xs = .ok (xs.mergeSort fun x y => decide (rank y ≤ rank x)) := by
  have hreverse : Compares (fun x y => less (key x) (key y)) rank xs.reverse := fun x hx y hy =>
    hless x (mem_reverse.mp hx) y (mem_reverse.mp hy)
  rw [sortDownM, sortByKeyM_eq hreverse]
  change Except.ok _ = Except.ok _
  have hsorted := isStable_mergeSort rank xs.reverse
  -- what rises in the one direction rises in the dual order in the other
  have hdual : IsStable (fun x => OrderDual.toDual (rank x)) xs
      (xs.reverse.mergeSort fun x y => decide (rank x ≤ rank y)).reverse := by
    refine ⟨pairwise_reverse.mpr (hsorted.rising.imp id), fun r => ?_⟩
    have hkept := hsorted.kept (OrderDual.ofDual r)
    rw [filter_reverse] at hkept ⊢
    exact (congrArg reverse hkept).trans (reverse_reverse _)
  exact congrArg Except.ok (hdual.unique (isStable_mergeSort _ xs))

/-- Items of which none is below another stay as they are. -/
lemma mergeSort_of_level (xs : List α) : (xs.mergeSort fun _ _ => decide ((0 : ℕ) ≤ 0)) = xs :=
  mergeSort_of_pairwise (pairwise_of_forall_mem_list fun _ _ _ _ => by simp)

lemma sortByKeyM_of_level
    (h : ∀ x ∈ xs, ∀ y ∈ xs, less (key x) (key y) = .ok false) : sortByKeyM less key xs = .ok xs := by
  have hless : Compares (fun x y => less (key x) (key y)) (fun _ => (0 : ℕ)) xs := by simpa [Compares] using h
  rw [sortByKeyM_eq hless, mergeSort_of_level]

lemma sortDownM_of_level
    (h : ∀ x ∈ xs, ∀ y ∈ xs, less (key x) (key y) = .ok false) : sortDownM less key xs = .ok xs := by
  have hless : Compares (fun x y => less (key x) (key y)) (fun _ => (0 : ℕ)) xs := by simpa [Compares] using h
  rw [sortDownM_eq hless, mergeSort_of_level]

end CodeAudit.Sequence
