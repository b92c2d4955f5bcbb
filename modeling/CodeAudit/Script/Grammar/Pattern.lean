import CodeAudit.Script.Grammar.Expression

/-!
# Patterns

The patterns of a match statement's cases.

## Main definitions

* `pattern` — alternatives of closed patterns with an optional name.
* `casePattern` — the pattern of a case, where commas make a sequence.
-/

namespace CodeAudit.Script

open Reader

/-- Whether a number is imaginary. -/
def isImaginary (text : String) : Bool :=
  match text.toList.getLast? with
  | some c => c == 'j' || c == 'J'
  | none => false

/-- Takes a number and tells whether it is imaginary. -/
def numberToken : Reader Bool := do
  match (← peek).lexeme with
  | .number text =>
    let _ ← take
    return isImaginary text
  | _ => fail

/-- A number with an optional sign and an optional imaginary part, which is added to a real part. -/
def numberPattern : Reader Node := do
  let start ← here
  let _ ← acceptOp "-"
  let imaginary ← numberToken
  if (← seesOp "+") || (← seesOp "-") then
    let _ ← take
    ensure (!imaginary)
    ensure (← numberToken)
    let left ← node start (.constant .number) []
    node start .binOp [left]
  else node start (.constant .number) []

variable (rules : Rules)

/-- A dotted name behind its first part. -/
def dottedTail (start : Pos) (first : Node) : Reader Node :=
  chain (fun left => do
    if ← acceptOp "." then
      let id ← name
      return some (← node start (.attribute id) [left.asPart .value])
    else return none) rules.bound first

/-- The name that a pattern binds. -/
def captureName : Reader String := do
  let id ← name
  ensure (id ≠ "_")
  return id

/-- An item of a sequence pattern, which may take the rest. -/
def starPattern : Reader Node := do
  let start ← here
  if ← acceptOp "*" then
    let _ ← name
    let behind ← peek
    ensure (behind.lexeme ∉ [.op ".", .op "(", .op "="])
    node start .matchStar []
  else rules.pattern

/-- Whether a pattern may start with a token. -/
def startsPattern (t : Token) : Bool :=
  match t.lexeme with
  | .name _ | .number _ | .string _ => true
  | .keyword text => text ∈ ["None", "True", "False"]
  | .op text => text ∈ ["(", "[", "\x7b", "-", "*"]
  | _ => false

/-- A pattern in parentheses, or a sequence of patterns. -/
def groupPattern : Reader Node := do
  let start ← here
  expectOp "("
  if ← acceptOp ")" then node start .matchSequence []
  else
    let (items, trailing) ← commaList rules.bound startsPattern (starPattern rules)
    expectOp ")"
    match items with
    | [single] =>
      if trailing then node start .matchSequence [single]
      else
        ensure (single.shape ≠ .matchStar)
        return single
    | _ => node start .matchSequence items

/-- A sequence of patterns in brackets. -/
def sequencePattern : Reader Node := do
  let start ← here
  expectOp "["
  if ← acceptOp "]" then node start .matchSequence []
  else
    let (items, _) ← commaList rules.bound startsPattern (starPattern rules)
    expectOp "]"
    node start .matchSequence items

/-- A key of a mapping pattern: a literal or a dotted name. -/
def mappingKey : Reader Node := do
  let start ← here
  match (← peek).lexeme with
  | .number _ | .op "-" => numberPattern
  | .string _ => strings rules
  | .keyword text =>
    ensure (text ∈ ["None", "True", "False"])
    let _ ← take
    node start (.constant .none) []
  | .name _ =>
    let id ← name
    let first ← node start (.name id) []
    let key ← dottedTail rules start first
    ensure (key.shape ≠ .name id)
    return key
  | _ => fail

/-- An item of a mapping pattern; the flag tells whether it takes the rest. -/
def mappingItem : Reader (List Node × List Node × Bool) := do
  if ← acceptOp "**" then
    let _ ← captureName
    return ([], [], true)
  else
    let key ← mappingKey rules
    expectOp ":"
    return ([key], [← rules.pattern], false)

/-- A mapping of keys to patterns; the item that takes the rest comes last. -/
def mappingPattern : Reader Node := do
  let start ← here
  expectOp "\x7b"
  if ← acceptOp "\x7d" then node start .matchMapping []
  else
    let starts (t : Token) : Bool := t.lexeme ≠ .op "\x7d"
    let (items, _) ← commaList rules.bound starts (mappingItem rules)
    expectOp "\x7d"
    ensure (items.dropLast.all (fun (_, _, rest) => !rest))
    node start .matchMapping (items.flatMap (·.1) ++ items.flatMap (·.2.1))

/-- An argument of a class pattern; the flag tells whether it is named. -/
def classArgument : Reader (Node × Bool) := do
  if (← peekSecond).lexeme = .op "=" then
    let _ ← name
    expectOp "="
    return (← rules.pattern, true)
  else return (← rules.pattern, false)

/-- Whether all named items stand behind all others. -/
def namedLast : List (Node × Bool) → Bool
  | [] => true
  | (_, named) :: rest => (!named || rest.all (·.2)) && namedLast rest

/-- A name that is bound, a dotted name, or a class with patterns for its parts. -/
def namePattern : Reader Node := do
  let start ← here
  let id ← name
  let first ← node start (.name id) []
  let whole ← dottedTail rules start first
  if ← acceptOp "(" then
    if ← acceptOp ")" then node start .matchClass [whole]
    else
      let starts (t : Token) : Bool := t.lexeme ≠ .op ")"
      let (items, _) ← commaList rules.bound starts (classArgument rules)
      expectOp ")"
      ensure (namedLast items)
      node start .matchClass (whole :: items.map (·.1))
  else
    ensure (!(← seesOp "="))
    if whole.shape = .name id then node start .matchAs [] else node start .matchValue [whole]

/-- A pattern that needs no parentheses among alternatives. -/
def closedPattern : Reader Node := do
  let start ← here
  match (← peek).lexeme with
  | .number _ | .op "-" =>
    let value ← numberPattern
    node start .matchValue [value]
  | .string _ =>
    let value ← strings rules
    node start .matchValue [value]
  | .keyword text =>
    ensure (text ∈ ["None", "True", "False"])
    let _ ← take
    node start .matchSingleton []
  | .name _ => namePattern rules
  | .op "(" => groupPattern rules
  | .op "[" => sequencePattern rules
  | .op "\x7b" => mappingPattern rules
  | _ => fail

/-- **Patterns**: alternatives of closed patterns with an optional name. -/
def pattern : Reader Node := do
  let start ← here
  let first ← closedPattern rules
  let more ← repeatWhile (acceptOp "|") (closedPattern rules) rules.bound
  let whole ← if more.isEmpty then pure first else node start .matchOr (first :: more)
  if ← acceptWord "as" then
    let _ ← captureName
    ensure ((← peek).lexeme ∉ [.op ".", .op "(", .op "="])
    node start .matchAs [whole]
  else return whole

/-- The pattern of a case, where commas make a sequence. -/
def casePattern : Reader Node := do
  let start ← here
  let (items, trailing) ← commaList rules.bound startsPattern (starPattern { rules with pattern := pattern rules })
  match items with
  | [single] =>
    if trailing then node start .matchSequence [single]
    else
      ensure (single.shape ≠ .matchStar)
      return single
  | _ => node start .matchSequence items

end CodeAudit.Script
