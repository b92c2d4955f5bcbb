/-!
# Sorting with comparisons that may fail

The items are sorted by insertion: the run at the front is taken as it is, or turned around if it falls, and
every further item is put behind all items that are not above it. Items that are equal keep their order.

## Main definitions

* `Sequence.sortM` — items in order.
* `Sequence.sortByKeyM` — items in the order of their keys.
-/

namespace CodeAudit.Sequence

variable {m : Type → Type} [Monad m] {α : Type}

variable (less : α → α → m Bool)

/-- The longest start of a row in which no item is below the one before it, and the rest. -/
def risingRun (last : α) : List α → m (List α × List α)
  | [] => pure ([], [])
  | x :: rest => do
    if ← less x last then pure ([], x :: rest)
    else
      let (run, left) ← risingRun x rest
      pure (x :: run, left)

/-- The longest start of a row in which every item is below the one before it, and the rest. -/
def fallingRun (last : α) : List α → m (List α × List α)
  | [] => pure ([], [])
  | x :: rest => do
    if ← less x last then
      let (run, left) ← fallingRun x rest
      pure (x :: run, left)
    else pure ([], x :: rest)

/-- The position between two positions of a sorted row at which an item belongs, found by bisection. -/
def position (item : α) (sorted : List α) (low high : Nat) : m Nat :=
  if low < high then
    match sorted[low + (high - low) / 2]? with
    | some x => do
      if ← less item x then position item sorted low (low + (high - low) / 2)
      else position item sorted (low + (high - low) / 2 + 1) high
    | none => pure low
  else pure low
termination_by high - low

/-- Puts an item into a sorted row. -/
def insertSorted (sorted : List α) (item : α) : m (List α) := do
  let i ← position less item sorted 0 sorted.length
  pure (sorted.take i ++ item :: sorted.drop i)

/-- **Items in order.** -/
def sortM : List α → m (List α)
  | [] => pure []
  | [x] => pure [x]
  | x :: y :: rest => do
    if ← less y x then
      let (run, left) ← fallingRun less y rest
      left.foldlM (insertSorted less) (x :: y :: run).reverse
    else
      let (run, left) ← risingRun less y rest
      left.foldlM (insertSorted less) (x :: y :: run)

/-- **Items in the order of their keys.** -/
def sortByKeyM {κ : Type} (less : κ → κ → m Bool) (key : α → κ) (xs : List α) : m (List α) := do
  let sorted ← sortM (fun a b => less a.1 b.1) (xs.map fun x => (key x, x))
  pure (sorted.map (·.2))

/-- Items in the order of their keys, greatest first; equal ones keep their order. -/
def sortDownM {κ : Type} (less : κ → κ → m Bool) (key : α → κ) (xs : List α) : m (List α) := do
  pure (← sortByKeyM less key xs.reverse).reverse

end CodeAudit.Sequence
