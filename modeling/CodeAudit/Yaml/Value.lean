import CodeAudit.Datum.Basic
import CodeAudit.Number.Reading
import CodeAudit.Text.Case
import CodeAudit.Text.Pattern
import CodeAudit.Yaml.Node

/-!
# The value of a YAML text

## Main definitions

* `Yaml.meaning` — what a scalar stands for by its text alone.
* `Yaml.read?` — the value of a text; nothing if the text is malformed.
-/

namespace CodeAudit.Yaml

open Text (Pattern)

/-- What a scalar can stand for. -/
inductive Meaning
  | null
  | bool
  | int
  | float
  | time
  | merge
  | default
  | text
deriving DecidableEq

/-! ## Scalars by their text -/

/-- A digit. -/
def digit : Pattern :=
  .one Char.isDigit

/-- Digits and underscores. -/
def digitRun : Pattern :=
  .many (.one fun c => c.isDigit || c == '_')

/-- A sign or nothing. -/
def sign : Pattern :=
  .optional (.one fun c => c == '+' || c == '-')

/-- Parts behind colons, each below sixty. -/
def sixtieths : Pattern :=
  .some1 (.all [.char ':', .optional (.one fun c => '0' ≤ c && c ≤ '5'), digit])

/-- One of some words. -/
def words (ws : List String) : Pattern :=
  .any (ws.map Pattern.word)

/-- A truth value. -/
def boolPattern : Pattern :=
  words ["yes", "Yes", "YES", "no", "No", "NO", "true", "True", "TRUE", "false", "False", "FALSE", "on", "On", "ON",
    "off", "Off", "OFF"]

/-- An exponent, whose sign is written. -/
def exponent : Pattern :=
  .optional (.all [.one fun c => c == 'e' || c == 'E', .one fun c => c == '+' || c == '-', .some1 digit])

/-- A number with a point. -/
def floatPattern : Pattern :=
  .any [
    .all [sign, digit, digitRun, .char '.', digitRun, exponent],
    .all [.char '.', digit, digitRun, exponent],
    .all [sign, digit, digitRun, sixtieths, .char '.', digitRun],
    .all [sign, words [".inf", ".Inf", ".INF"]],
    words [".nan", ".NaN", ".NAN"]]

/-- A digit other than zero. -/
def leading : Pattern :=
  .one fun c => '1' ≤ c && c ≤ '9'

/-- A whole number: binary, octal, decimal, hexadecimal, or in parts of sixty. -/
def intPattern : Pattern :=
  .any [
    .all [sign, .word "0b", .some1 (.one fun c => c == '0' || c == '1' || c == '_')],
    .all [sign, .char '0', .some1 (.one fun c => ('0' ≤ c && c ≤ '7') || c == '_')],
    .all [sign, .char '0', .textEnd],
    .all [sign, leading, digitRun, .textEnd],
    .all [sign, .word "0x", .some1 (.one fun c => (hexDigit? c).isSome || c == '_')],
    .all [sign, leading, digitRun, sixtieths]]

/-- A day, or a day with a time. -/
def timePattern : Pattern :=
  let two := Pattern.seq digit digit
  let oneOrTwo := Pattern.seq digit (.optional digit)
  let blank : Pattern := .one fun c => c == ' ' || c == '\t'
  .any [
    .all [two, two, .char '-', two, .char '-', two, .textEnd],
    .all [two, two, .char '-', oneOrTwo, .char '-', oneOrTwo,
      .alt (.one fun c => c == 'T' || c == 't') (.some1 blank), oneOrTwo, .char ':', two, .char ':', two,
      .optional (.seq (.char '.') (.many digit)),
      .optional (.seq (.many blank) (.alt (.char 'Z')
        (.all [.one fun c => c == '+' || c == '-', oneOrTwo, .optional (.seq (.char ':') two)])))]]

/-- Whether a pattern matches a whole text. -/
def fits (p : Pattern) (s : String) : Bool :=
  (Pattern.seq p .textEnd).matchesStart s

/-- **What a scalar stands for by its text alone.** -/
def meaning (s : String) : Meaning :=
  if fits boolPattern s then .bool
  else if fits floatPattern s then .float
  else if fits intPattern s then .int
  else if s == "<<" then .merge
  else if fits (words ["~", "null", "Null", "NULL", ""]) s then .null
  else if fits timePattern s then .time
  else if s == "=" then .default
  else .text

/-- What a common tag says about a scalar. -/
def meaningOfTag? (tag : String) : Option Meaning :=
  if tag == commonTag ++ "null" then some .null
  else if tag == commonTag ++ "bool" then some .bool
  else if tag == commonTag ++ "int" then some .int
  else if tag == commonTag ++ "float" then some .float
  else if tag == commonTag ++ "timestamp" then some .time
  else if tag == commonTag ++ "merge" then some .merge
  else if tag == commonTag ++ "value" then some .default
  else if tag == commonTag ++ "str" then some .text
  else none

/-- What a scalar stands for, given its tag and whether it is free. -/
def scalarMeaning? (tag : Option String) (isFree : Bool) (s : String) : Option Meaning :=
  match tag with
  | none | some "!" => some (if isFree then meaning s else .text)
  | some t => meaningOfTag? t

/-! ## The values of scalars -/

/-- A truth value. -/
def boolOf? (s : String) : Option Bool :=
  let lower := Text.lower s
  if ["yes", "true", "on"].contains lower then some true
  else if ["no", "false", "off"].contains lower then some false
  else none

/-- A number by its digits in a base. -/
def inBase? (base : Nat) (digits : List Char) : Option Int :=
  if digits.isEmpty then none
  else digits.foldlM (fun (n : Int) c => do
    let d ← hexDigit? c
    if d < base then some (n * (base : Int) + (d : Int)) else none) 0

/-- Takes a sign off a text; tells whether it is negative. -/
def unsigned (cs : List Char) : Bool × List Char :=
  match cs with
  | '-' :: rest => (true, rest)
  | '+' :: rest => (false, rest)
  | _ => (false, cs)

/-- A whole number. -/
def intOf? (s : String) : Option Int := do
  let (negative, body) := unsigned (s.toList.filter (· != '_'))
  let n ← match body with
    | [] => none
    | ['0'] => some 0
    | '0' :: 'b' :: digits => inBase? 2 digits
    | '0' :: 'x' :: digits => inBase? 16 digits
    | '0' :: digits => inBase? 8 digits
    | _ =>
      if body.contains ':' then do
        let parts ← ((String.ofList body).splitOn ":").mapM Number.readInt?
        some (parts.foldl (fun n part => n * 60 + part) 0)
      else Number.readInt? (String.ofList body)
  return if negative then -n else n

/-- The sum of parts, the last one as it is and each other sixty times the place behind it. -/
def sixtiethsSum (parts : List Float) : Float :=
  (parts.reverse.foldl (fun (acc : Float × Float) part => (acc.1 + part * acc.2, acc.2 * 60)) (0, 1)).1

/-- A number with a point. -/
def floatOf? (s : String) : Option Float := do
  let (negative, body) := unsigned ((Text.lower s).toList.filter (· != '_'))
  let body := String.ofList body
  let x ←
    if body.isEmpty then none
    else if body == ".inf" then some (1 / 0)
    else if body == ".nan" then some (0 / 0)
    else if body.contains ':' then do
      let parts ← (body.splitOn ":").mapM Number.readFloat?
      some (sixtiethsSum parts)
    else Number.readFloat? body
  return if negative then -x else x

/-- The value of a scalar. A time is kept as its text; a sign for merging or for a default has no value. -/
def scalarOf? (m : Meaning) (s : String) : Option Datum :=
  match m with
  | .null => some .null
  | .bool => (boolOf? s).map .bool
  | .int => (intOf? s).map .int
  | .float => (floatOf? s).map .float
  | .time | .text => some (.text s)
  | .merge | .default => none

/-! ## The values of nodes -/

/-- Whether a tag allows a collection of a kind. -/
def isTag (tag : Option String) (name : String) : Bool :=
  isOpenTag tag || tag == some (commonTag ++ name)

/-- Whether a node is the sign for merging. -/
def Node.isMerge : Node → Bool
  | .scalar tag isFree s => scalarMeaning? tag isFree s == some .merge
  | _ => false

/-- Whether a tag asks for a list of pairs. -/
def asksPairs (tag : Option String) : Bool :=
  tag == some (commonTag ++ "omap") || tag == some (commonTag ++ "pairs")

mutual

/-- The value of a node. -/
def Node.value? : Node → Option Datum
  | .scalar tag isFree s => do
    scalarOf? (← scalarMeaning? tag isFree s) s
  | .list tag items =>
    if isTag tag "seq" then (valuesOf? items).map .list
    else if asksPairs tag then (pairsOf? items).map .list
    else none
  | .map tag entries => do
    if isTag tag "map" then
      let (merged, own) ← entriesOf? entries
      some (.dict (Datum.insertAll (merged ++ own) []))
    else none

/-- The values of some nodes. -/
def valuesOf? : List Node → Option (List Datum)
  | [] => some []
  | n :: rest => do
    return (← n.value?) :: (← valuesOf? rest)

/-- The pairs for which maps of one entry stand. -/
def pairsOf? : List Node → Option (List Datum)
  | [] => some []
  | .map _ [(k, v)] :: rest => do
    return .tuple [← k.value?, ← v.value?] :: (← pairsOf? rest)
  | _ :: _ => none

/-- The entries of a map: those that it takes over from others, and its own. -/
def entriesOf? : List (Node × Node) → Option (List (Datum × Datum) × List (Datum × Datum))
  | [] => some ([], [])
  | (k, v) :: rest => do
    if k.isMerge then
      let taken ← v.taken?
      let (merged, own) ← entriesOf? rest
      return (taken ++ merged, own)
    else
      let key ← k.key?
      let value ← v.value?
      let (merged, own) ← entriesOf? rest
      if (Datum.unhashableKind? key).isSome then none
      else return (merged, (key, value) :: own)

/-- The value of a key. The sign for a default is a text here. -/
def Node.key? : Node → Option Datum
  | .scalar tag isFree s => do
    let m ← scalarMeaning? tag isFree s
    if m = .default then some (.text s) else scalarOf? m s
  | .list _ _ | .map _ _ => none

/-- The entries that a map takes over from a map, or from each map of a list, the first one last. -/
def Node.taken? : Node → Option (List (Datum × Datum))
  | .scalar _ _ _ => none
  | .map _ entries => do
    let (merged, own) ← entriesOf? entries
    return merged ++ own
  | .list _ items => takenFrom? items

/-- The entries of each map of a list, the first one last. -/
def takenFrom? : List Node → Option (List (Datum × Datum))
  | [] => some []
  | .map _ entries :: rest => do
    let (merged, own) ← entriesOf? entries
    let others ← takenFrom? rest
    return others ++ merged ++ own
  | _ :: _ => none

end

/-- **The value of a text**; nothing if the text is malformed. -/
def read? (s : String) : Option Datum := do
  (← document? (← tokens? s)).value?

end CodeAudit.Yaml
