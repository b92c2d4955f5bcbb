import CodeAudit.Script.Grammar.Cursor
import CodeAudit.Script.Interpolation

/-!
# Expressions

The readers follow the grammar from the loosest operator to the tightest. What may stand inside brackets
is read by the given rules.

## Main definitions

* `starExpressions`, `namedExpression` — the expressions of statements and of conditions.
* `primary` — names, literals and brackets with attributes, calls and subscripts.
-/

namespace CodeAudit.Script

open Reader

/-- Whether an expression may start with a token. -/
def startsExpression (t : Token) : Bool :=
  match t.lexeme with
  | .name _ | .number _ | .string _ => true
  | .keyword text => text ∈ ["not", "lambda", "await", "None", "True", "False"]
  | .op text => text ∈ ["(", "[", "\x7b", "-", "+", "~", "..."]
  | _ => false

/-- Whether an item of a list, which may be starred, may start with a token. -/
def startsItem (t : Token) : Bool :=
  t.lexeme = .op "*" || startsExpression t

/-! ## Targets -/

/-- A name, an attribute or an item. -/
def isSingleTarget (n : Node) : Bool :=
  match n.shape with
  | .name _ | .attribute _ | .subscript => true
  | _ => false

/-- What an assignment may assign to: single targets, starred ones, and lists of them. -/
def isTarget : Node → Bool
  | .mk _ (.name _) _ _ => true
  | .mk _ (.attribute _) _ _ => true
  | .mk _ .subscript _ _ => true
  | .mk _ .starred _ children => allTargets children
  | .mk _ .list _ children => allTargets children
  | .mk _ .tuple _ children => allTargets children
  | _ => false
where
  /-- Whether all nodes are targets. -/
  allTargets : List Node → Bool
    | [] => true
    | n :: rest => isTarget n && allTargets rest

/-- What may be deleted: single targets and lists of them. -/
def isDeletable : Node → Bool
  | .mk _ (.name _) _ _ => true
  | .mk _ (.attribute _) _ _ => true
  | .mk _ .subscript _ _ => true
  | .mk _ .list _ children => allDeletable children
  | .mk _ .tuple _ children => allDeletable children
  | _ => false
where
  /-- Whether all nodes may be deleted. -/
  allDeletable : List Node → Bool
    | [] => true
    | n :: rest => isDeletable n && allDeletable rest

/-! ## Operators -/

variable (rules : Rules)

/-- Operators that group to the left. -/
def leftGrouped (ops : List String) (operand : Reader Node) : Reader Node := do
  let start ← here
  let first ← operand
  chain (fun left => do
    match (← peek).lexeme with
    | .op text =>
      if text ∈ ops then
        let _ ← take
        let right ← operand
        return some (← node start .binOp [left, right])
      else return none
    | _ => return none) rules.bound first

/-- Operands of one logical operator, in one node. -/
def logical (word : String) (operand : Reader Node) : Reader Node := do
  let start ← here
  let first ← operand
  let more ← repeatWhile (acceptWord word) operand rules.bound
  if more.isEmpty then return first else node start .boolOp (first :: more)

/-- A starred node. -/
def starred (start : Pos) (value : Node) : Reader Node :=
  node start .starred [value.asPart .value]

/-- The operators between comparisons and shifts. -/
def shiftExpression : Reader Node :=
  leftGrouped rules ["<<", ">>"] <| leftGrouped rules ["+", "-"] <|
    leftGrouped rules ["*", "/", "//", "%", "@"] rules.factor

/-- An expression of bit operators and tighter ones. -/
def bitwiseOr : Reader Node :=
  leftGrouped rules ["|"] <| leftGrouped rules ["^"] <| leftGrouped rules ["&"] (shiftExpression rules)

/-! ## Parameters -/

/-- What has been read of a list of parameters. -/
structure Parameters where
  /-- Parameters given by position only. -/
  positional : List Node := []
  plain : List Node := []
  rest : List Node := []
  keywordOnly : List Node := []
  keywordDefaults : List Node := []
  mapping : List Node := []
  defaults : List Node := []
  /-- A slash has been read. -/
  slash : Bool := false
  /-- A star has been read. -/
  star : Bool := false
  /-- A lone star still needs a parameter behind it. -/
  needsName : Bool := false
  /-- A mapping parameter has been read, so the list must end. -/
  closed : Bool := false

/-- The children of a parameter list in grammar order. -/
def Parameters.nodes (p : Parameters) : List Node :=
  p.positional ++ p.plain ++ p.rest ++ p.keywordOnly ++ p.keywordDefaults ++ p.mapping ++ p.defaults

/-- A parameter's name with its annotation, if annotations are allowed; the annotation of a rest
parameter may be starred. -/
def parameterName (note : Option (Reader Node)) : Reader Node := do
  let start ← here
  let id ← name
  match note with
  | some read =>
    if ← acceptOp ":" then
      let type ← read
      node start (.arg id) [type]
    else node start (.arg id) []
  | none => node start (.arg id) []

/-- One item of a parameter list. -/
def parameter (annotated : Bool) (p : Parameters) : Reader Parameters := do
  ensure (!p.closed)
  let note := if annotated then some rules.expression else none
  if ← acceptOp "/" then
    ensure (!p.slash && !p.star && !p.plain.isEmpty)
    return { p with positional := p.plain, plain := [], slash := true }
  else if ← acceptOp "**" then
    ensure (!p.needsName)
    let arg ← parameterName note
    return { p with mapping := [arg], closed := true }
  else if ← acceptOp "*" then
    ensure (!p.star)
    if ← seesOp "," then return { p with star := true, needsName := true }
    else
      let starNote : Reader Node := do
        let start ← here
        if ← acceptOp "*" then starred start (← bitwiseOr rules) else rules.expression
      let arg ← parameterName (if annotated then some starNote else none)
      return { p with rest := [arg], star := true }
  else
    let arg ← parameterName note
    if ← acceptOp "=" then
      let value ← rules.expression
      if p.star then
        return { p with
          keywordOnly := p.keywordOnly ++ [arg]
          keywordDefaults := p.keywordDefaults ++ [value]
          needsName := false }
      else return { p with plain := p.plain ++ [arg], defaults := p.defaults ++ [value] }
    else if p.star then
      return { p with keywordOnly := p.keywordOnly ++ [arg], needsName := false }
    else
      ensure p.defaults.isEmpty
      return { p with plain := p.plain ++ [arg] }

/-- The items of a parameter list up to the operator that closes it. -/
def parameterItems (annotated : Bool) (close : String) : Nat → Parameters → Reader Parameters
  | 0, _ => fail
  | bound + 1, p => do
    if ← seesOp close then return p
    else
      let next ← parameter rules annotated p
      if ← acceptOp "," then parameterItems annotated close bound next
      else
        ensure (← seesOp close)
        return next

/-- A list of parameters, before the operator that closes it. -/
def parameters (annotated : Bool) (close : String) : Reader Node := do
  let start ← here
  let p ← parameterItems rules annotated close rules.bound {}
  ensure (!p.needsName)
  node start .arguments p.nodes

/-! ## Lists, calls and subscripts -/

/-- An expression that may be bound to a name. -/
def namedExpression : Reader Node := do
  let start ← here
  let behind ← peekSecond
  if behind.lexeme = .op ":=" then
    let id ← name
    let target ← node start (.name id) []
    expectOp ":="
    let value ← rules.expression
    node start .namedExpr [target, value]
  else rules.expression

/-- An item of a list in brackets: starred, or an expression that may be bound to a name. -/
def starNamed : Reader Node := do
  let start ← here
  if ← acceptOp "*" then starred start (← bitwiseOr rules) else namedExpression rules

/-- The alternatives of a condition, without the conditional itself. -/
def disjunction : Reader Node :=
  logical rules "or" (logical rules "and" rules.inversion)

/-- An argument of a call. -/
inductive Argument
  | positional (value : Node)
  | keyword (value : Node)

/-- Reads one argument. Once a keyword was read no plain argument follows, and once a mapping was spread
no starred one either. -/
def argument (sawKeyword sawMapping : Bool) : Reader (Argument × Bool × Bool) := do
  let start ← here
  let first ← peek
  let second ← peekSecond
  if first.lexeme = .op "*" then
    ensure (!sawMapping)
    let _ ← take
    let value ← starred start (← rules.expression)
    return (.positional (value.asPart .argument), sawKeyword, sawMapping)
  else if first.lexeme = .op "**" then
    let _ ← take
    let value ← rules.expression
    let n ← node start (.keyword none) [value.asPart .value]
    return (.keyword (n.asPart .keyword), sawKeyword, true)
  else if second.lexeme = .op "=" then
    let id ← name
    expectOp "="
    let value ← rules.expression
    let n ← node start (.keyword (some id)) [value.asPart .value]
    return (.keyword (n.asPart .keyword), true, sawMapping)
  else
    ensure (!sawKeyword && !sawMapping)
    let value ← namedExpression rules
    return (.positional (value.asPart .argument), sawKeyword, sawMapping)

/-- The arguments of a call up to the closing parenthesis. -/
def argumentItems : Nat → Bool → Bool → Reader (List Argument)
  | 0, _, _ => fail
  | bound + 1, sawKeyword, sawMapping => do
    if ← seesOp ")" then return []
    else
      let (item, sawKeyword, sawMapping) ← argument rules sawKeyword sawMapping
      if ← acceptOp "," then return item :: (← argumentItems bound sawKeyword sawMapping)
      else
        ensure (← seesOp ")")
        return [item]

/-- The positional arguments before the keywords, each in source order. -/
def orderArguments (items : List Argument) : List Node :=
  items.filterMap (fun | .positional n => some n | .keyword _ => none) ++
    items.filterMap (fun | .keyword n => some n | .positional _ => none)

/-- The arguments of a call and the parenthesis that closes them. -/
def arguments : Reader (List Node) := do
  let items ← argumentItems rules rules.bound false false
  expectOp ")"
  return orderArguments items

/-- A target of a loop: starred or not, it is read as a primary expression. -/
def targetItem (primary : Reader Node) : Reader Node := do
  let start ← here
  if ← acceptOp "*" then starred start (← primary) else primary

/-- The targets of a loop. -/
def targets (primary : Reader Node) : Reader Node := do
  let start ← here
  let (items, trailing) ← commaList rules.bound startsItem (targetItem primary)
  let target ← match items with
    | [single] => if trailing then node start .tuple [single] else pure single
    | _ => node start .tuple items
  ensure (isTarget target)
  return target

/-- The clauses of a comprehension. -/
def comprehensionClauses (primary : Reader Node) : Reader (List Node) := do
  let guard : Reader Bool := do
    if ← seesWord "for" then return true
    else if ← seesWord "async" then return (← peekSecond).lexeme = .keyword "for"
    else return false
  let clause : Reader Node := do
    let start ← here
    let _ ← acceptWord "async"
    expectWord "for"
    let target ← targets rules primary
    expectWord "in"
    let source ← disjunction rules
    let conditions ← repeatWhile (acceptWord "if") (disjunction rules) rules.bound
    node start .comprehension (target :: source :: conditions)
  let first ← clause
  let more ← repeatWhile guard clause rules.bound
  return first :: more

/-- Whether a comprehension's clauses follow. -/
def seesComprehension : Reader Bool := do
  if ← seesWord "for" then return true
  else if ← seesWord "async" then return (← peekSecond).lexeme = .keyword "for"
  else return false

/-- The arguments of a call behind its opening parenthesis, with the closing one. A lone comprehension
needs no parentheses of its own. -/
def callArguments (primary : Reader Node) (opening : Pos) : Reader (List Node) := do
  let first ← peek
  let second ← peekSecond
  if !startsExpression first || second.lexeme = .op "=" then arguments rules
  else
    let element ← namedExpression rules
    if ← seesComprehension then
      let clauses ← comprehensionClauses rules primary
      expectOp ")"
      let n ← node opening .generatorExp (element :: clauses)
      return [n.asPart .argument]
    else
      let more ← if ← acceptOp "," then argumentItems rules rules.bound false false else pure []
      expectOp ")"
      return orderArguments (.positional (element.asPart .argument) :: more)

/-- A call behind the expression it calls. -/
def callTail (primary : Reader Node) (start : Pos) (callee : Node) : Reader Node := do
  let opening ← here
  expectOp "("
  let args ← callArguments rules primary opening
  node start .call (callee.asPart .callee :: args)

/-- One entry of a subscript: a slice, or an expression that may be starred or bound to a name. -/
def sliceItem : Reader Node := do
  let start ← here
  if ← acceptOp "*" then starred start (← rules.expression)
  else
    let named := (← peekSecond).lexeme = .op ":="
    let lower ← if ← seesOp ":" then pure [] else (do return [← namedExpression rules])
    if !named && (← acceptOp ":") then
      let bound : Reader (List Node) := do
        if startsExpression (← peek) then return [← rules.expression] else return []
      let upper ← bound
      let step ← if ← acceptOp ":" then bound else pure []
      node start .slice (lower ++ upper ++ step)
    else
      match lower with
      | [value] => return value
      | _ => fail

/-- A subscript behind the expression it is taken of. -/
def subscriptTail (start : Pos) (value : Node) : Reader Node := do
  expectOp "["
  let inner ← here
  let starts (t : Token) : Bool := startsItem t || t.lexeme = .op ":"
  let (items, trailing) ← commaList rules.bound starts (sliceItem rules)
  let index ← match items with
    | [single] =>
      if trailing || single.shape = .starred then node inner .tuple [single] else pure single
    | _ => node inner .tuple items
  expectOp "]"
  node start .subscript [value.asPart .value, index]

/-! ## Literals -/

/-- The greatest number of string literals that are joined is that of the tokens. -/
def stringTokens : Reader (List Token) := do
  let guard : Reader Bool := do
    match (← peek).lexeme with
    | .string _ => return true
    | _ => return false
  repeatWhile guard take rules.bound

/-- The nodes of one literal among joined ones. -/
def literalNodes (t : Token) (q : Quoted) : Except SyntaxFault (List Node) :=
  if q.format then
    let ctx : FieldContext := ⟨rules.field, ⟨t.start, t.stop⟩, q.raw⟩
    (ctx.interpolate (q.body.length + 1) 0 t.start.line q.body).bind fun (nodes, _, left) =>
      if left.isEmpty then .ok nodes else .error ctx.fault
  else
    match q.text? with
    | some value =>
      .ok [Node.mk .piece (.constant (.text (String.ofList value))) ⟨t.start, t.stop⟩ []]
    | none => .error ⟨t.start.line⟩

/-- Joined string literals. Bytes join only with bytes; one formatted literal makes the whole formatted. -/
def strings : Reader Node := do
  let start ← here
  let tokens ← stringTokens rules
  let quoted := tokens.filterMap fun t =>
    match t.lexeme with
    | .string text => some (t, Quoted.ofToken text)
    | _ => none
  if quoted.any (fun (_, q) => q.bytes) then
    ensure (quoted.all fun (_, q) => q.bytes && isByteBody q.raw q.body)
    node start (.constant .bytes) []
  else
    let parts ← (quoted.mapM fun (t, q) => literalNodes rules t q : Except SyntaxFault (List (List Node)))
    if quoted.any (fun (_, q) => q.format) then node start .joinedStr parts.flatten
    else
      let text := parts.flatten.map fun n =>
        match n.shape with
        | .constant (.text s) => s
        | _ => ""
      node start (.constant (.text (String.join text))) []

/-! ## Brackets -/

/-- A yield expression behind its keyword's place. -/
def yieldExpression (starList : Reader Node) : Reader Node := do
  let start ← here
  expectWord "yield"
  if ← acceptWord "from" then
    let value ← rules.expression
    node start .yieldFrom [value]
  else if startsItem (← peek) then
    let value ← starList
    node start .yield [value]
  else node start .yield []

/-- An expression or a starred one, as in statements. -/
def starExpression : Reader Node := do
  let start ← here
  if ← acceptOp "*" then starred start (← bitwiseOr rules) else rules.expression

/-- Expressions with commas between them, as in statements; commas make a tuple. -/
def starExpressions : Reader Node := do
  let start ← here
  let (items, trailing) ← commaList rules.bound startsItem (starExpression rules)
  match items with
  | [single] => if trailing then node start .tuple [single] else return single
  | _ => node start .tuple items

/-- Parentheses: a tuple, a generator, or an expression that stands for itself. -/
def parenthesized (primary : Reader Node) : Reader Node := do
  let start ← here
  expectOp "("
  if ← acceptOp ")" then node start .tuple []
  else if ← seesWord "yield" then
    let value ← yieldExpression rules (starExpressions rules)
    expectOp ")"
    return value
  else
    let first ← starNamed rules
    if first.shape ≠ .starred && (← seesComprehension) then
      let clauses ← comprehensionClauses rules primary
      expectOp ")"
      node start .generatorExp (first :: clauses)
    else
      let (more, trailing) ← commaTail startsItem (starNamed rules) rules.bound
      expectOp ")"
      if more.isEmpty && !trailing then
        ensure (first.shape ≠ .starred)
        return first
      else node start .tuple (first :: more)

/-- Square brackets: a list or a list comprehension. -/
def bracketed (primary : Reader Node) : Reader Node := do
  let start ← here
  expectOp "["
  if ← acceptOp "]" then node start .list []
  else
    let first ← starNamed rules
    if first.shape ≠ .starred && (← seesComprehension) then
      let clauses ← comprehensionClauses rules primary
      expectOp "]"
      node start .listComp (first :: clauses)
    else
      let (more, _) ← commaTail startsItem (starNamed rules) rules.bound
      expectOp "]"
      node start .list (first :: more)

/-- An entry of a dictionary: a key and a value, or a mapping that is spread. -/
def dictEntry : Reader (List Node × Node) := do
  if ← acceptOp "**" then return ([], ← bitwiseOr rules)
  else
    let key ← rules.expression
    expectOp ":"
    return ([key], ← rules.expression)

/-- A dictionary's node: all keys before all values. -/
def dictNode (start : Pos) (entries : List (List Node × Node)) : Reader Node :=
  node start .dict (entries.flatMap (·.1) ++ entries.map (·.2))

/-- Braces: a dictionary, a set, or a comprehension of either. -/
def braced (primary : Reader Node) : Reader Node := do
  let start ← here
  expectOp "\x7b"
  let startsEntry (t : Token) : Bool := t.lexeme = .op "**" || startsExpression t
  let restOfDict (first : List Node × Node) : Reader Node := do
    let (more, _) ← commaTail startsEntry (dictEntry rules) rules.bound
    expectOp "\x7d"
    dictNode start (first :: more)
  if ← acceptOp "\x7d" then node start .dict []
  else if ← seesOp "**" then restOfDict (← dictEntry rules)
  else
    let named := (← peekSecond).lexeme = .op ":="
    let first ← starNamed rules
    if first.shape ≠ .starred && !named && (← acceptOp ":") then
      let value ← rules.expression
      if ← seesComprehension then
        let clauses ← comprehensionClauses rules primary
        expectOp "\x7d"
        node start .dictComp (first :: value :: clauses)
      else restOfDict ([first], value)
    else if first.shape ≠ .starred && (← seesComprehension) then
      let clauses ← comprehensionClauses rules primary
      expectOp "\x7d"
      node start .setComp (first :: clauses)
    else
      let (more, _) ← commaTail startsItem (starNamed rules) rules.bound
      expectOp "\x7d"
      node start .set (first :: more)

/-- A name, a literal, or brackets. -/
def atom (primary : Reader Node) : Reader Node := do
  let start ← here
  let constant (value : Constant) : Reader Node := do
    let _ ← take
    node start (.constant value) []
  match (← peek).lexeme with
  | .name _ =>
    let id ← name
    node start (.name id) []
  | .number _ => constant .number
  | .string _ => strings rules
  | .keyword text =>
    if text = "None" then constant .none
    else if text = "True" then constant .true
    else if text = "False" then constant .false
    else fail
  | .op text =>
    if text = "(" then parenthesized rules primary
    else if text = "[" then bracketed rules primary
    else if text = "\x7b" then braced rules primary
    else if text = "..." then constant .ellipsis
    else fail
  | _ => fail

/-- An atom with its attributes, calls and subscripts. The targets inside it are read with one rule less,
since a bracket has been taken by then. -/
def primaryWithin : Nat → Reader Node
  | 0 => fail
  | depth + 1 => do
    let start ← here
    let first ← atom rules (primaryWithin depth)
    chain (fun left => do
      if ← acceptOp "." then
        let id ← name
        return some (← node start (.attribute id) [left.asPart .value])
      else if ← seesOp "(" then return some (← callTail rules (primaryWithin depth) start left)
      else if ← seesOp "[" then return some (← subscriptTail rules start left)
      else return none) rules.bound first

/-- **Primary expressions.** -/
def primary : Reader Node :=
  primaryWithin rules rules.bound

/-! ## The rules for expressions -/

/-- A power, whose right side may have a sign, over an awaited or plain primary expression. -/
def power : Reader Node := do
  let start ← here
  let base ←
    if ← acceptWord "await" then (do
      let value ← primary rules
      node start .await [value])
    else primary rules
  if ← acceptOp "**" then
    let exponent ← rules.factor
    node start .binOp [base, exponent]
  else return base

/-- A power under any number of signs. -/
def factor : Reader Node := do
  let start ← here
  match (← peek).lexeme with
  | .op text =>
    if text ∈ ["+", "-", "~"] then
      let _ ← take
      let value ← rules.factor
      node start .unaryOp [value]
    else power rules
  | _ => power rules

/-- Takes a comparison operator if one is next. -/
def acceptComparison : Reader Bool := do
  match (← peek).lexeme with
  | .op text =>
    if text ∈ ["==", "!=", "<", ">", "<=", ">="] then
      let _ ← take
      return true
    else return false
  | .keyword "in" => acceptWord "in"
  | .keyword "not" =>
    if (← peekSecond).lexeme = .keyword "in" then
      let _ ← take
      acceptWord "in"
    else return false
  | .keyword "is" =>
    let _ ← take
    let _ ← acceptWord "not"
    return true
  | _ => return false

/-- A row of comparisons, in one node. -/
def comparison : Reader Node := do
  let start ← here
  let first ← bitwiseOr rules
  let more ← repeatWhile acceptComparison (bitwiseOr rules) rules.bound
  if more.isEmpty then return first else node start .compare (first :: more)

/-- A comparison under any number of negations. -/
def inversion : Reader Node := do
  let start ← here
  if ← acceptWord "not" then
    let value ← rules.inversion
    node start .unaryOp [value]
  else comparison rules

/-- A function expression. -/
def lambda : Reader Node := do
  let start ← here
  expectWord "lambda"
  let args ← parameters rules false ":"
  expectOp ":"
  let value ← rules.expression
  node start .lambda [args, value]

/-- **Expressions**: a function expression, or alternatives with an optional condition. -/
def expression : Reader Node := do
  if ← seesWord "lambda" then lambda rules
  else
    let start ← here
    let first ← disjunction rules
    if ← acceptWord "if" then
      let test ← disjunction rules
      expectWord "else"
      let other ← rules.expression
      node start .ifExp [test, first, other]
    else return first

end CodeAudit.Script
