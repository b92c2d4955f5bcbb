import CodeAudit.Score.Category
import CodeAudit.Score.Scalar

/-!
# Scores and severities

## Main definitions

* `Severity`, `Severity.ofScore` — how urgent a finding is.
* `Weights` — the weights of the categories, and how they are overridden.
-/

namespace CodeAudit

open Scalar

/-- How urgent a finding is; `p0` is the most urgent. -/
inductive Severity
  | p0
  | p1
  | p2
  | p3
deriving DecidableEq

namespace Severity

/-- The name of a severity. -/
def name : Severity → String
  | p0 => "P0"
  | p1 => "P1"
  | p2 => "P2"
  | p3 => "P3"

/-- The severity of a score. -/
def ofScore {α : Type} [Scalar α] (score : α) : Except Fault Severity := do
  if ← ordered .ge score (fraction 8 10) then return p0
  else if ← ordered .ge score (fraction 6 10) then return p1
  else if ← ordered .ge score (fraction 4 10) then return p2
  else return p3

end Severity

namespace Score

variable {α : Type} [Scalar α]

/-- The score of a finding that counts as much as its category weighs. -/
def ofWeight (weight : α) : Except Fault α :=
  clamp weight

/-- The score of a complex function: how far its complexity is above the threshold, in units of twice the
threshold. -/
def complexity (value weight threshold : α) : Except Fault α := do
  let excess ← Scalar.div (← Scalar.sub value threshold) (← Scalar.mul threshold (fraction 2 1))
  let positive ← ordered .gt excess (fraction 0 1)
  clamp (← Scalar.mul (if positive then excess else fraction 0 1) weight)

/-- The score of a duplicated function: its similarity to the other one. -/
def duplication (similarity weight : α) : Except Fault α := do
  clamp (← Scalar.mul similarity weight)

/-- How much a context can raise the score of a category. -/
def contextCap (category : Option Category) : α :=
  match category with
  | some .security => fraction 1 1
  | some .complexity => fraction 3 10
  | some .duplication => fraction 3 10
  | some .performance => fraction 4 10
  | some .documentation => fraction 2 10
  | some .testing => fraction 4 10
  | none => fraction 2 10

/-- A score raised by a context, if there is one: the cap of the category, times the context, is taken of
what is missing to one. -/
def withContext (base : α) (category : Option Category) (context : Option α) : Except Fault α := do
  match context with
  | none => clamp base
  | some context =>
    let cap := contextCap category
    let c ← clamp context
    let raised ← Scalar.add base (← Scalar.mul cap c)
    clamp (← Scalar.sub raised (← Scalar.mul (← Scalar.mul base cap) c))

/-- A score raised by a context, where the category is a value of any kind. It is looked up only if there is
a context. -/
def inContext (base category context : Datum) : Except Fault Datum := do
  match context with
  | .null => clamp base
  | _ => withContext base (← Category.lookUp category) (some context)

end Score

/-! ## Weights -/

/-- The weights of categories, by name. -/
abbrev Weights := List (Datum × Datum)

namespace Weights

/-- The weight of a category unless it is overridden. -/
def standardOf {α : Type} [Scalar α] : Category → α
  | .security => fraction 1 1
  | .complexity => fraction 6 10
  | .duplication => fraction 5 10
  | .performance => fraction 6 10
  | .documentation => fraction 3 10
  | .testing => fraction 7 10

/-- The weights of all categories. -/
def standard : Weights :=
  Category.all.map fun c => (.text c.name, standardOf c)

/-- Puts new weights in the place of old ones; what is no number is passed over. Nothing happens if there
are no new ones. -/
def override (new : Datum) (weights : Weights) : Except Fault Weights := do
  if !new.truthy then return weights
  let entries ← new.entriesAs "items"
  entries.foldlM (fun acc (k, v) => do
    if v.numeric?.isSome then return Datum.insert k (.float (← v.toFloat)) acc else return acc) weights

end Weights

end CodeAudit
