import CodeAudit.Datum.Lenient

/-!
# Normal form of dependency metrics

Metrics that come from outside are brought into a normal form: names are texts and counts are integers.

## Main definitions

* `DependencyMetrics.normalize` — the metrics of an analysis in normal form.
-/

namespace CodeAudit.DependencyMetrics

/-- The entries of a dictionary of counts: keys become texts, values integers. -/
def normalCounts (entries : List (Datum × Datum)) : List (Datum × Datum) :=
  entries.foldl
    (fun acc (k, v) =>
      Datum.insert (.text k.str) (.int ((Lenient.toInt v (.int 0)).toOption.getD 0)) acc) []

/-- A row of a ranking as a name and a count; a row that is no pair is a name. -/
def normalRow (row : Datum) : Datum :=
  match Lenient.sequence? row with
  | some (n :: v :: _) => .tuple [.text n.str, .int ((Lenient.toInt v (.int 0)).toOption.getD 0)]
  | _ => .tuple [.text row.str, .int 0]

/-- The rows of a ranking. -/
def normalRows (rows : Datum) : Except Fault Datum := do
  return .list ((← rows.items).map normalRow)

/-- Cycles as lists of texts. -/
def normalCycles (cycles : Datum) : Except Fault Datum := do
  let rows ← (← cycles.items).mapM fun c => do
    return Datum.list ((← c.items).map fun x => .text x.str)
  return .list rows

/-- The metrics of an analysis: those given directly, or those of its dependencies. -/
def find (result : Datum) : Except Fault Datum := do
  let direct ← result.ask "dep_metrics" .null
  if direct.truthy then return direct
  let dependencies ← result.ask "dependencies" (.dict [])
  return (← dependencies.ask "metrics" (.dict [])).orElse (.dict [])

/-- Whether a value can be copied. -/
def copyable : Datum → Bool
  | .dict _ | .list _ => true
  | _ => false

/-- **The metrics of an analysis in normal form.** What else they hold is kept. -/
def normalize (result : Datum) : Except Fault Datum := do
  let metrics ← find result
  if !copyable metrics then throw (.noAttribute metrics.kind "copy")
  let fanIn := (← metrics.ask "fan_in" (.dict [])).orElse (.dict [])
  let fanOut := (← metrics.ask "fan_out" (.dict [])).orElse (.dict [])
  let topFanIn := (← metrics.ask "top_fan_in" (.list [])).orElse (.list [])
  let topFanOut := (← metrics.ask "top_fan_out" (.list [])).orElse (.list [])
  let cycles := (← metrics.ask "cycles" (.list [])).orElse (.list [])
  let fanIn ← fanIn.entriesAs "items"
  let fanOut ← fanOut.entriesAs "items"
  let entries ← metrics.entriesAs "get"
  return .dict (Datum.insertAll
    [(.text "fan_in", .dict (normalCounts fanIn)), (.text "fan_out", .dict (normalCounts fanOut)),
      (.text "top_fan_in", ← normalRows topFanIn), (.text "top_fan_out", ← normalRows topFanOut),
      (.text "cycles", ← normalCycles cycles)] entries)

end CodeAudit.DependencyMetrics
