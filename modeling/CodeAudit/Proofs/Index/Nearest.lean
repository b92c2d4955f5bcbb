import CodeAudit.Proofs.Datum
import CodeAudit.Proofs.Index.Identifier
import CodeAudit.Proofs.Number.Share
import CodeAudit.Proofs.Sequence.Sort

/-!
# Near and far documents

A store answers a question with its documents and their distances, nearest first. A search asks for twice as many
documents as are wanted and puts them in a new order, in which the greatest numbers come first. If the question mentions
no document, these numbers are still the distances: the search turns the order of the store around, and gives the
farthest of the documents that it was given.

## Main definitions

* `Search.Ranking` — what a store answers.
* `Shelf.ranking` — what a shelf answers.

## Main results

* `Search.rank_of_unmentioned` — what a search gives if nothing is mentioned.
* `Search.rank_prefers_farthest` — a search prefers the farthest documents.
-/

namespace CodeAudit

open List Number

namespace Search

/-! ## Stores -/

/-- **What a store answers**: its documents with their distances from a question, nearest first. -/
structure Ranking where
  entries : List (Document × Float)
  isNumber : ∀ e ∈ entries, e.2.isNaN = false
  ascending : entries.Pairwise fun a b => a.2 ≤ b.2

namespace Ranking

variable {e : Document × Float} {rest : List (Document × Float)}

/-- The nearest documents. -/
def nearest (store : Ranking) (n : ℕ) : List (Document × Float) :=
  store.entries.take n

/-- No document of a store is mentioned: its name and its file can be told and hold none of the given names. -/
def Unmentioned (store : Ranking) (ids : List String) : Prop :=
  ∀ e ∈ store.entries, ∃ name file, loweredDetail e.1 "name" = .ok name ∧ loweredDetail e.1 "file_name" = .ok file ∧
    ∀ id ∈ ids, Text.contains name id = false ∧ Text.contains file id = false

/-- The documents of a row, farthest first; those at one distance keep their order. -/
def farthestFirst (found : List (Document × Float)) : List (Document × Float) :=
  found.mergeSort fun a b => !(a.2 < b.2)

variable {store : Ranking} {n : ℕ}

lemma isNumber_of_mem_nearest (h : e ∈ store.nearest n) : e.2.isNaN = false :=
  store.isNumber e (mem_of_mem_take h)

lemma farthestFirst_nearest (store : Ranking) (n : ℕ) :
    farthestFirst (store.nearest n) = (store.nearest n).mergeSort fun a b =>
      decide (OrderDual.toDual (Number.rank a.2) ≤ OrderDual.toDual (Number.rank b.2)) := by
  refine Sequence.mergeSort_congr fun a ha b hb => ?_
  exact not_lt_eq (isNumber_of_mem_nearest ha) (isNumber_of_mem_nearest hb)

/-- The distances fall. -/
lemma pairwise_farthestFirst (store : Ranking) (n : ℕ) :
    (farthestFirst (store.nearest n)).Pairwise fun a b => b.2 ≤ a.2 := by
  have hrising := (Sequence.isStable_mergeSort (fun e : Document × Float => OrderDual.toDual (Number.rank e.2))
    (store.nearest n)).rising
  rw [← farthestFirst_nearest] at hrising
  refine hrising.imp_of_mem fun {a b} ha hb hab => ?_
  have hmem : ∀ {e}, e ∈ farthestFirst (store.nearest n) → e.2.isNaN = false := fun he =>
    isNumber_of_mem_nearest (mem_mergeSort.mp he)
  exact (le_iff_rank_le (hmem hb) (hmem ha)).mpr hab

/-- A row whose distances are all the same keeps its order. -/
lemma farthestFirst_of_level {found : List (Document × Float)} (h : ∀ a ∈ found, ∀ b ∈ found, ¬ a.2 < b.2) :
    farthestFirst found = found :=
  mergeSort_of_pairwise (pairwise_of_forall_mem_list fun a ha b hb => by simpa using h a ha b hb)

/-- The first document of a store is the nearest. -/
lemma rank_first_le {first : Document × Float} (hfirst : store.entries = first :: rest) (he : e ∈ store.entries) :
    Number.rank first.2 ≤ Number.rank e.2 := by
  have hmem : first ∈ store.entries := hfirst ▸ mem_cons_self
  have hrising := store.ascending
  rw [hfirst, pairwise_cons] at hrising
  rcases mem_cons.mp (hfirst ▸ he) with rfl | hrest
  · exact le_rfl
  · exact (le_iff_rank_le (store.isNumber first hmem) (store.isNumber e he)).mp (hrising.1 e hrest)

/-- The first document behind the turn of the order is the farthest. -/
lemma rank_le_farthest {far : Document × Float}
    (hfar : farthestFirst (store.nearest n) = far :: rest) (he : e ∈ store.nearest n) :
    Number.rank e.2 ≤ Number.rank far.2 := by
  have hmem : ∀ {d}, d ∈ farthestFirst (store.nearest n) ↔ d ∈ store.nearest n := mem_mergeSort
  have hnumber := isNumber_of_mem_nearest (hmem.mp (hfar ▸ mem_cons_self))
  have hfalling := store.pairwise_farthestFirst n
  rw [hfar, pairwise_cons] at hfalling
  rcases mem_cons.mp (hfar ▸ hmem.mpr he) with rfl | hrest
  · exact le_rfl
  · exact (le_iff_rank_le (isNumber_of_mem_nearest he) hnumber).mp (hfalling.1 e hrest)

end Ranking

/-- **What a search gives if nothing is mentioned**: of twice as many documents as are wanted, the farthest. -/
lemma rank_of_unmentioned {settings : Settings} {question : Datum} {ids : List String} {k : ℕ}
    (hcount : settings.count = .int k) (hids : identifiers question = .ok ids) {store : Ranking}
    (hno : store.Unmentioned ids) (n : ℕ) :
    rank settings question ((store.nearest n).map fun e => (e.1, .float e.2)) =
      .ok (((Ranking.farthestFirst (store.nearest n)).take k).map (·.1)) := by
  have hscored : ((store.nearest n).map fun e => (e.1, Datum.float e.2)).mapM
      (fun e => do return (e.1, ← adjusted settings.boost ids e.1 e.2)) = Except.ok (store.nearest n) := by
    rw [mapM_map, Outcome.mapM_eq_ok (g := id), map_id]
    intro e he
    obtain ⟨name, file, hname, hfile, hids⟩ := hno e (mem_of_mem_take he)
    have hadjusted : adjusted settings.boost ids e.1 (.float e.2) = .ok e.2 :=
      adjusted_of_unmentioned hname hfile hids rfl
    simp only [Function.comp_apply, hadjusted]
    rfl
  refine Outcome.bind_eq_ok.mpr ⟨ids, hids, Outcome.bind_eq_ok.mpr ⟨_, hscored, ?_⟩⟩
  rw [hcount, Datum.firstOf_eq_take, map_take]
  rfl

lemma asked_eq {settings : Settings} {k : ℕ} (hcount : settings.count = .int k) :
    asked settings = .ok (.int (2 * k : ℕ)) := by
  rw [asked, hcount, Nat.cast_mul, mul_comm]
  rfl

end Search

open Search

/-- The answer of a shelf that is asked for all its documents. -/
def Shelf.ranking (shelf : Shelf) : Ranking where
  entries := (shelf.client.collection shelf.held).ranked []
  isNumber := by
    intro e he
    obtain ⟨d, -, rfl⟩ := mem_map.mp (mem_mergeSort.mp he)
    exact isNaN_ofInt _
  ascending := by
    set found := ((shelf.client.collection shelf.held).select []).map fun e => (e.2, Collection.distance e.2) with hfound
    have hnumber : ∀ e ∈ found, e.2.isNaN = false := by
      intro e he
      obtain ⟨d, -, rfl⟩ := mem_map.mp he
      exact isNaN_ofInt _
    have hsorted : (shelf.client.collection shelf.held).ranked [] =
        found.mergeSort fun a b => decide (Number.rank a.2 ≤ Number.rank b.2) :=
      Sequence.mergeSort_congr fun a ha b hb => not_lt_eq (hnumber b hb) (hnumber a ha)
    rw [hsorted]
    refine (Sequence.isStable_mergeSort (fun e : Document × Float => Number.rank e.2) found).rising.imp_of_mem ?_
    intro a b ha hb hle
    exact (le_iff_rank_le (hnumber a (mem_mergeSort.mp ha)) (hnumber b (mem_mergeSort.mp hb))).mpr hle

/-- The distance of a document on a shelf depends on nothing but the document. -/
lemma Shelf.distance_of_mem_ranking {shelf : Shelf} {e : Document × Float} (h : e ∈ shelf.ranking.entries) :
    e.2 = Collection.distance e.1 := by
  obtain ⟨d, -, rfl⟩ := mem_map.mp (mem_mergeSort.mp h)
  rfl

namespace Search

/-- A search in a shelf ranks what the shelf answers. -/
lemma run_eq {settings : Settings} {k : ℕ} (hcount : settings.count = .int k) (shelf : Shelf) (question : Datum) :
    run shelf settings question =
      rank settings question ((shelf.ranking.nearest (2 * k)).map fun e => (e.1, .float e.2)) := by
  have hsearch : shelf.search (.int (2 * k : ℕ)) = .ok (shelf.ranking.nearest (2 * k)) := Datum.firstOf_eq_take _ _
  have hrun : run shelf settings question = asked settings >>= fun n => shelf.search n >>= fun found =>
      rank settings question (found.map fun e => (e.1, .float e.2)) := rfl
  rw [hrun, asked_eq hcount]
  change (shelf.search (.int (2 * k : ℕ)) >>= fun found => rank settings question _) = _
  rw [hsearch]
  rfl

/-- **A search prefers the farthest of the documents that it is given.**

Let a question mention no document of a store, and let some number of documents be wanted. The search asks for twice as
many. It gives the wanted number of them, or all documents if there are less; they are in the order of falling
distances, and none that is left out is farther than one that is given. The same holds of a search in a shelf. So the
nearest documents are given, nearest first, exactly if the documents for which the search asked are all at one distance.

**Proof sketch.** Without a mention the scores are the distances (`rank_of_unmentioned`), and they are sorted with the
greatest first (`Ranking.pairwise_farthestFirst`). If the result is that of the store, then the first document of the
turned order is the first one of the store, so the greatest distance is the least. -/
theorem rank_prefers_farthest {settings : Settings} {question : Datum} {ids : List String} {k : ℕ} (store : Ranking)
    (hcount : settings.count = .int k) (hk : 1 ≤ k) (hids : identifiers question = .ok ids)
    (hno : store.Unmentioned ids) :
    asked settings = .ok (.int (2 * k : ℕ)) ∧
    ∃ chosen left : List (Document × Float), (chosen ++ left).Perm (store.nearest (2 * k)) ∧
      chosen.length = min k store.entries.length ∧ chosen.Pairwise (fun a b => b.2 ≤ a.2) ∧
      (∀ a ∈ chosen, ∀ b ∈ left, b.2 ≤ a.2) ∧
      rank settings question ((store.nearest (2 * k)).map fun e => (e.1, .float e.2)) = .ok (chosen.map (·.1)) ∧
      (∀ shelf : Shelf, shelf.ranking = store → run shelf settings question = .ok (chosen.map (·.1))) ∧
      ((∀ a ∈ store.entries, ∀ b ∈ store.entries, a.1 = b.1 → a.2 = b.2) →
        (chosen.map (·.1) = (store.nearest k).map (·.1) ↔
          ∀ a ∈ store.nearest (2 * k), ∀ b ∈ store.nearest (2 * k), ¬ a.2 < b.2)) := by
  have hrank := rank_of_unmentioned hcount hids hno (2 * k)
  set sorted := Ranking.farthestFirst (store.nearest (2 * k)) with hsorted
  have hperm : sorted.Perm (store.nearest (2 * k)) := List.mergeSort_perm _ _
  have hfalling := store.pairwise_farthestFirst (2 * k)
  rw [← hsorted, ← List.take_append_drop k sorted, List.pairwise_append] at hfalling
  obtain ⟨hchosen, -, hleft⟩ := hfalling
  refine ⟨asked_eq hcount, sorted.take k, sorted.drop k, by rwa [List.take_append_drop], ?_, hchosen, hleft, hrank, ?_, ?_⟩
  · rw [List.length_take, hperm.length_eq, Ranking.nearest, List.length_take]
    omega
  · rintro shelf rfl
    rw [run_eq hcount, hrank]
  · intro hsingle
    have hnearest : store.nearest k = (store.nearest (2 * k)).take k := by
      rw [Ranking.nearest, Ranking.nearest, List.take_take, min_eq_left (by omega)]
    constructor
    · intro heq a ha b hb hlt
      obtain ⟨near, rest, hnear⟩ := List.exists_cons_of_ne_nil (List.ne_nil_of_mem (List.mem_of_mem_take ha))
      obtain ⟨far, rest', hfar⟩ := List.exists_cons_of_ne_nil (List.ne_nil_of_mem (hperm.mem_iff.mpr ha))
      obtain ⟨j, rfl⟩ := Nat.exists_eq_add_of_le' hk
      rw [Ranking.nearest, hnear, hfar, List.take_succ_cons, List.take_succ_cons, List.map_cons, List.map_cons] at heq
      have hmem : far ∈ store.entries := List.mem_of_mem_take (hperm.mem_iff.mp (hfar ▸ List.mem_cons_self))
      have hsame : far.2 = near.2 := hsingle far hmem near (hnear ▸ List.mem_cons_self) (List.cons.inj heq).1
      have hless : Number.rank a.2 < Number.rank b.2 := (Number.lt_iff_rank_lt
        (Ranking.isNumber_of_mem_nearest ha) (Ranking.isNumber_of_mem_nearest hb)).mp hlt
      have hlow := Ranking.rank_first_le hnear (List.mem_of_mem_take ha)
      have hhigh := Ranking.rank_le_farthest hfar hb
      rw [hsame] at hhigh
      exact absurd (hlow.trans_lt (hless.trans_le hhigh)) (lt_irrefl _)
    · intro hlevel
      rw [hnearest, hsorted, Ranking.farthestFirst_of_level hlevel]

/-- A document with one character. -/
def shortDocument : Document :=
  ⟨"a", .object [("name", .text "f"), ("file_name", .text "a.py")]⟩

/-- A document with two characters. -/
def longDocument : Document :=
  ⟨"bb", .object [("name", .text "g"), ("file_name", .text "b.py")]⟩

/-- A shelf with a short and a long document. -/
def shortAndLong : Shelf :=
  ⟨⟨[⟨[("doc_0", shortDocument), ("doc_1", longDocument)]⟩], some 0⟩, 0⟩

/-- **The nearest document of two is not the one that is found.** Asked for one document, a search in a shelf of two
gives the farther one. -/
theorem rank_prefers_longDocument :
    ∃ docs, run shortAndLong { count := .int 1 } (.text "") = .ok docs ∧
      docs ≠ (shortAndLong.ranking.nearest 1).map (·.1) := by
  have hentries : shortAndLong.ranking.entries =
      [(shortDocument, Collection.distance shortDocument), (longDocument, Collection.distance longDocument)] :=
    List.mergeSort_of_pairwise (by decide +kernel)
  have hno : shortAndLong.ranking.Unmentioned [] := by
    intro e he
    rw [hentries] at he
    rcases List.mem_pair.mp he with rfl | rfl
    · exact ⟨"f", "a.py", by decide +kernel, by decide +kernel, by simp⟩
    · exact ⟨"g", "b.py", by decide +kernel, by decide +kernel, by simp⟩
  obtain ⟨-, chosen, left, -, -, -, -, -, hrun, hiff⟩ :=
    @rank_prefers_farthest { count := .int 1 } (.text "") [] 1 shortAndLong.ranking rfl le_rfl rfl hno
  refine ⟨_, hrun _ rfl, fun heq => ?_⟩
  have hlevel := (hiff fun a ha b hb h => by
    rw [Shelf.distance_of_mem_ranking ha, Shelf.distance_of_mem_ranking hb, h]).mp heq
  rw [Ranking.nearest, hentries] at hlevel
  exact hlevel _ List.mem_cons_self _ (List.mem_cons_of_mem _ List.mem_cons_self) (by decide +kernel)

end Search

end CodeAudit
