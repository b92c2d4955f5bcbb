/-!
# Stretches and orders of sequences

## Main definitions

* `Sequence.slice` — the items between two positions, which may count from the end.
* `Sequence.sorted` — items in order, which is `List.mergeSort` with a measure that can be evaluated.
-/

namespace CodeAudit.Sequence

variable {α : Type}

/-- A position as an offset from the start: a negative one counts from the end, and stops at the start. -/
def offset (length : Nat) (i : Int) : Nat :=
  (if i < 0 then i + length else i).toNat

/-- The items from one position to behind another. -/
def slice (xs : List α) (start stop : Int) : List α :=
  (xs.take (offset xs.length stop)).drop (offset xs.length start)

variable (le : α → α → Bool)

/-- Two rows as one: the lower of their first items comes first. -/
def merged : (xs ys : List α) → List α
  | [], ys => ys
  | xs, [] => xs
  | x :: xs, y :: ys => if le x y then x :: merged xs (y :: ys) else y :: merged (x :: xs) ys
termination_by xs ys => xs.length + ys.length

theorem merged_eq (xs ys : List α) : merged le xs ys = xs.merge ys le := by
  fun_induction merged le xs ys <;> simp_all

/-- **Items in order**: each half is sorted, and both are merged. -/
def sorted : List α → List α
  | x :: y :: rest =>
    merged le (sorted ((x :: y :: rest).take ((rest.length + 3) / 2)))
      (sorted ((x :: y :: rest).drop ((rest.length + 3) / 2)))
  | xs => xs
termination_by xs => xs.length
decreasing_by all_goals simp; omega

theorem sorted_eq (xs : List α) : sorted le xs = xs.mergeSort le := by
  fun_induction sorted le xs with
  | case1 x y rest first second =>
    rw [merged_eq, first, second, List.mergeSort]
    simp [List.MergeSort.Internal.splitInTwo]
  | case2 xs short =>
    match xs with
    | [] | [_] => simp
    | x :: y :: rest => exact absurd rfl (short x y rest)

end CodeAudit.Sequence
