import CodeAudit.Datum.Arithmetic

/-!
# Tuning of rules

Rules are moved towards what is found in repositories that are known to be good: thresholds of complexity
follow its distribution, the threshold of similarity follows the number of duplicates, and the weight of
performance follows the concentration of dependencies.

## Main definitions

* `Tuning.cutoffs` — the thresholds of complexity.
* `Tuning.adjust` — the changes of the rules.
-/

namespace CodeAudit.Tuning

/-! ## Complexity -/

/-- The thresholds of complexity: where warnings begin, and the two cutoffs above. -/
structure Cutoffs where
  warnAt : Int
  p1 : Int
  p0 : Int

/-- Half of a number, rounded to the even neighbour. -/
def half (n : Int) : Int :=
  if n % 2 = 0 ∨ n / 2 % 2 = 0 then n / 2 else n / 2 + 1

/-- The median of ordered values, rounded to the even neighbour. -/
def median (ordered : List Int) : Int :=
  let n := ordered.length
  if n % 2 = 1 then ordered.getD (n / 2) 0 else half (ordered.getD (n / 2 - 1) 0 + ordered.getD (n / 2) 0)

/-- The value below which some tenths of ordered values lie; the greatest one if there are few values. -/
def tenths (count few : Nat) (ordered : List Int) : Int :=
  let n := ordered.length
  if n < few then ordered.getLastD 0 else ordered.getD (count * n / 10 - 1) 0

/-- **The thresholds of complexity** for values that were found. -/
def cutoffs (values : List Int) : Cutoffs :=
  let ordered := values.mergeSort
  let p1 := max 12 (tenths 8 5 ordered)
  { warnAt := if ordered.length < 5 then 10 else max 8 (median ordered)
    p1
    p0 := max (p1 + 2) (tenths 9 10 ordered) }

/-! ## Similarity and dependencies -/

/-- A number rounded to two decimal places. -/
def toHundredths (x : Float) : Float :=
  (Number.readFloat? (Number.fixed 2 x)).getD x

/-- **The threshold of similarity**: it rises if there are many duplicates and falls if there are few. -/
def similarity (duplicates : Nat) (threshold : Float) : Float :=
  toHundredths <|
    if duplicates > 50 then (if threshold + 0.02 < 0.97 then threshold + 0.02 else 0.97)
    else if duplicates < 5 then (if threshold - 0.03 > 0.85 then threshold - 0.03 else 0.85)
    else threshold

/-- The sum of numbers. -/
def total (xs : List Nat) : Nat :=
  xs.foldr (· + ·) 0

/-- **Whether the five modules with most dependents have more than a quarter of all.** -/
def isConcentrated (dependents : List Nat) : Bool :=
  let top := (dependents.mergeSort fun a b => b ≤ a).take 5
  4 * total top > max 1 (total dependents)

/-- The weight of performance after a rise. -/
def raised (weight : Float) : Float :=
  let x := toHundredths (weight + 0.05)
  if x < 1 then x else 1

/-! ## Changes of the rules -/

/-- A change of rules that may fail; what was changed before remains. -/
abbrev Edit (α : Type) := ExceptT Fault (StateM Datum) α

namespace Edit

/-- A result as a change. -/
def ofResult {α : Type} (r : Except Fault α) : Edit α :=
  ExceptT.mk (pure r)

/-- A section of the rules, which is made if it is missing. -/
def section_ (name : String) : Edit Datum := do
  let entries ← ofResult ((← get).entriesAs "setdefault")
  match Datum.lookup (.text name) entries with
  | some d => return d
  | none =>
    set (Datum.dict (Datum.insert (.text name) (.dict []) entries))
    return .dict []

/-- Sets a value in a section. -/
def put (name key : String) (value : Datum) : Edit Unit := do
  let part ← ofResult ((← section_ name).entriesAs "update")
  let entries ← ofResult ((← get).entriesAs "update")
  set (Datum.dict (Datum.insert (.text name) (.dict (Datum.insert (.text key) value part)) entries))

end Edit

/-- Sets the thresholds of complexity. -/
def setCutoffs (c : Cutoffs) : Edit Unit := do
  Edit.put "complexity" "warn_at" (.int c.warnAt)
  Edit.put "complexity" "p1_cutoff" (.int c.p1)
  Edit.put "complexity" "p0_cutoff" (.int c.p0)

/-- Sets the threshold of similarity. -/
def setSimilarity (duplicates : Nat) : Edit Unit := do
  let part ← Edit.ofResult ((← get).ask "duplication" (.dict []))
  let threshold ← Edit.ofResult ((← Edit.ofResult (part.ask "similarity_threshold" (.float 0.9))).toFloat)
  Edit.put "duplication" "similarity_threshold" (.float (similarity duplicates threshold))

/-- Raises the weight of performance. -/
def raisePerformance : Edit Unit := do
  let part ← Edit.section_ "weights"
  let weight ← Edit.ofResult ((← Edit.ofResult (part.ask "performance" (.float 0.6))).toFloat)
  Edit.put "weights" "performance" (.float (raised weight))

/-- **Changes rules by what was found**: complexities, the number of duplicates, and how many dependents each
module has. -/
def adjust (complexities : List Int) (duplicates : Nat) (dependents : List Nat) : Edit Unit := do
  unless complexities.isEmpty do setCutoffs (cutoffs complexities)
  setSimilarity duplicates
  if isConcentrated dependents then raisePerformance

/-! ## What is shown of rules -/

/-- The rows on one section. -/
def rowsOf (rules : Datum) (name : String) (keys : List String) : Except Fault (List (List String)) := do
  if ← rules.holds name then
    let part ← rules.at_ name
    keys.filterMapM fun key => do
      if ← part.holds key then return some [name ++ "." ++ key, (← part.at_ key).str] else return none
  else return []

/-- **The thresholds and weights in rules.** -/
def rows (rules : Datum) : Except Fault (List (List String)) := do
  let complexity ← rowsOf rules "complexity" ["warn_at", "p1_cutoff", "p0_cutoff"]
  let duplication ← rowsOf rules "duplication" ["similarity_threshold"]
  let weights ← ((← rules.ask "weights" .null).orElse (.dict [])).entriesAs "items"
  return complexity ++ duplication ++ weights.map fun (k, w) => ["weights." ++ k.str, w.str]

end CodeAudit.Tuning
