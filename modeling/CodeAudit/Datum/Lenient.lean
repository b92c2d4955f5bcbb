import CodeAudit.Datum.Arithmetic

/-!
# Lenient conversions

Values from outside are taken as numbers wherever that is possible; where it is not, a default is taken
instead. A list stands for its second item, or for its only one.

## Main definitions

* `Lenient.toInt`, `Lenient.toFloat`, `Lenient.ratio`, `Lenient.span` — conversions used by the analysis.
* `Lenient.property` — an attribute of a record or an entry of a dictionary.
-/

namespace CodeAudit.Lenient

/-- The first outcome if it succeeds, else the second. -/
def instead {α : Type} (first second : Except Fault α) : Except Fault α :=
  match first with
  | .ok x => .ok x
  | .error _ => second

/-- The items of a list or tuple. -/
def sequence? : Datum → Option (List Datum)
  | .list xs => some xs
  | .tuple xs => some xs
  | _ => none

/-- The item for which a sequence stands: the second one, or the only one. -/
def telling? : List Datum → Option Datum
  | [] => none
  | [x] => some x
  | _ :: y :: _ => some y

/-! ## Conversions of the analysis -/

variable (d default : Datum)

/-- A value as an integer, by way of a double. -/
def toInt : Except Fault Int :=
  instead
    (match sequence? d with
      | some xs => ((telling? xs).map Datum.toIntViaFloat).getD default.toInt
      | none => d.toIntViaFloat)
    default.toInt

/-- A value as a double. -/
def toFloat : Except Fault Float :=
  instead d.toFloat default.toFloat

/-- A value as a share of a greatest one, which counts as one if it is no number; the share of nothing is
zero. -/
def ratio (value greatest : Datum) : Except Fault Float := do
  let whole ← toFloat greatest (.float 1)
  if whole == 0 then return 0
  return (← toFloat value (.float 0)) / whole

/-- A value as the first and last line of a span. -/
def span : Datum × Datum :=
  let both (x : Datum) : Except Fault (Datum × Datum) := do
    let n ← toInt x default
    return (.int n, .int n)
  let result : Except Fault (Datum × Datum) :=
    match sequence? d with
    | some [] => .ok (default, default)
    | some [x] => both x
    | some (x :: y :: _) => do return (.int (← toInt x default), .int (← toInt y default))
    | none => both d
  match result with
  | .ok pair => pair
  | .error _ => (default, default)

/-- A text without the blanks at its ends; nothing and everything false counts as the empty text. -/
def trimmed (d : Datum) : Except Fault String :=
  match d.orElse (.text "") with
  | .text s => .ok (Text.trim s)
  | d => .error (.noAttribute d.kind "strip")

/-- A message without blanks at its ends, or a default if nothing is left of it. -/
def title (default : String) (message : Datum) : Except Fault String := do
  let s ← trimmed message
  return if s.isEmpty then default else s

/-! ## Conversions of reports -/

/-- A value as a double; a list may stand for one of its items. -/
def anyFloat : Except Fault Float :=
  instead d.toFloat
    (instead (((sequence? d).bind telling?).getD default).toFloat default.toFloat)

/-- A value as an integer; a list stands for one of its items. -/
def anyInt : Except Fault Int :=
  instead
    (match sequence? d with
      | some xs =>
        match telling? xs with
        | some x => (anyFloat x (.float 0)).bind Datum.floatToInt
        | none => default.toInt
      | none => do Datum.floatToInt (← anyFloat d (.float (← default.toFloat))))
    default.toInt

/-- A value as an integer. -/
def wholeInt : Except Fault Int :=
  instead (do Datum.floatToInt (← anyFloat d (.float (← default.toFloat)))) default.toInt

/-- The parts of a number that can be asked for by name. -/
def numberPart? (d : Datum) (name : String) : Option Datum :=
  match d with
  | .bool b => integerPart? (if b then 1 else 0) name
  | .int n => integerPart? n name
  | .float x =>
    if name == "real" then some (.float x) else if name == "imag" then some (.float 0) else none
  | _ => none
where
  /-- The parts of an integer. -/
  integerPart? (n : Int) (name : String) : Option Datum :=
    if name == "real" || name == "numerator" then some (.int n)
    else if name == "imag" then some (.int 0)
    else if name == "denominator" then some (.int 1)
    else none

/-- An attribute of a record, a part of a number or an entry of a dictionary. -/
def property (d key default : Datum) : Datum :=
  let named : Option Datum :=
    match key with
    | .text name => (d.field? name).or (numberPart? d name)
    | _ => none
  match named, d with
  | some v, _ => v
  | none, .dict entries => (Datum.lookup key entries).getD default
  | none, _ => default

end CodeAudit.Lenient
