import Mathlib.Data.Finset.Card
import CodeAudit.Detect.Fingerprint
import CodeAudit.Proofs.Sequence

/-!
# Rows of tokens as sets

The rows of `k` items of a list are its contiguous parts of length `k`, each once. The similarity of two lists of rows
is the number of rows that both have, divided by the number of rows that one of them has at least.

## Main definitions

* `Fingerprint.windows` — the contiguous parts of a length.
* `Fingerprint.similarity` — how much two sets have in common.

## Main results

* `Fingerprint.toFinset_rows` — the rows of a list are its windows.
* `Fingerprint.jaccard_eq` — the similarity of rows is that of the sets.
-/

namespace CodeAudit.Fingerprint

open List

section

variable {α : Type} [DecidableEq α]

/-- The contiguous parts of a list that have `k` items. -/
def windows (k : ℕ) (xs : List α) : Finset (List α) :=
  ((xs.tails.flatMap List.inits).filter fun w => w.length = k).toFinset

lemma mem_windows {k : ℕ} {xs w : List α} : w ∈ windows k xs ↔ w <:+: xs ∧ w.length = k := by
  simp [windows, infix_iff_prefix_suffix, and_comm]

/-- The share of the items of two sets that are in both. -/
def similarity (A B : Finset α) : Float :=
  Number.ratio (A ∩ B).card (A ∪ B).card

lemma similarity_comm (A B : Finset α) : similarity A B = similarity B A := by
  rw [similarity, similarity, Finset.inter_comm, Finset.union_comm]

end

lemma slice_add {α : Type} (xs : List α) (i k : ℕ) : Sequence.slice xs i (i + k) = (xs.drop i).take k := by
  have hoffset (n : ℕ) : Sequence.offset xs.length n = n := by
    rw [Sequence.offset, if_neg (by omega), Int.toNat_natCast]
  rw [Sequence.slice, ← Nat.cast_add, hoffset, hoffset, drop_take, Nat.add_sub_cancel_left]

/-- Where `k` items are left, a part of that length begins. -/
lemma infix_take_drop {α : Type} {xs : List α} {i k : ℕ} (h : i + k ≤ xs.length) :
    (xs.drop i).take k <:+: xs ∧ ((xs.drop i).take k).length = k := by
  refine ⟨( take_prefix _ _).isInfix.trans (drop_suffix _ _).isInfix, ?_⟩
  rw [length_take, length_drop]
  omega

variable {α : Type} [BEq α] [LawfulBEq α]

lemma nodup_rows (xs : List α) (k : ℤ) : (rows xs k).Nodup :=
  Sequence.nodup_eraseDups _

/-- A row begins wherever `k` items are left. -/
lemma mem_rows {xs w : List α} {k : ℕ} : w ∈ rows xs k ↔ w <:+: xs ∧ w.length = k := by
  rw [rows, mem_eraseDups, mem_map]
  constructor
  · rintro ⟨i, hi, rfl⟩
    have hi : i + k ≤ xs.length := by
      have := mem_range.mp hi
      omega
    rw [slice_add]
    exact infix_take_drop hi
  · rintro ⟨⟨front, back, rfl⟩, rfl⟩
    refine ⟨front.length, ?_, ?_⟩
    · simp
      omega
    · rw [slice_add]
      simp

variable [DecidableEq α]

/-- **The rows of a list are its windows.** -/
lemma toFinset_rows (xs : List α) (k : ℕ) : (rows xs k).toFinset = windows k xs := by
  ext w
  rw [mem_toFinset, mem_rows, mem_windows]

/-- For lists without repetition, the overlap counts the items of the intersection and of the union. -/
lemma overlap_eq {a b : List α} (ha : a.Nodup) (hb : b.Nodup) :
    overlap a b = ((a.toFinset ∩ b.toFinset).card, (a.toFinset ∪ b.toFinset).card) := by
  have hcommon : (a.filter b.contains).toFinset = a.toFinset ∩ b.toFinset := by
    ext x
    simp
  have hcard : (a.filter b.contains).length = (a.toFinset ∩ b.toFinset).card := by
    rw [← hcommon, toFinset_card_of_nodup (ha.filter _)]
  have hunion := Finset.card_union_add_card_inter a.toFinset b.toFinset
  rw [toFinset_card_of_nodup ha, toFinset_card_of_nodup hb] at hunion
  rw [overlap, hcard, Prod.mk.injEq]
  exact ⟨rfl, by omega⟩

/-- **The similarity of rows is that of the sets.** -/
lemma jaccard_eq {a b : List α} (ha : a.Nodup) (hb : b.Nodup) (hne : a ≠ []) :
    jaccard a b = similarity a.toFinset b.toFinset := by
  have hpos : (a.toFinset ∪ b.toFinset).card ≠ 0 := by
    rw [Finset.card_ne_zero]
    exact ((toFinset_nonempty_iff a).mpr hne).mono Finset.subset_union_left
  simp only [jaccard, overlap_eq ha hb]
  rw [if_neg hpos, similarity]

end CodeAudit.Fingerprint
