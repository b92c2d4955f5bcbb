import CodeAudit.Script.Grammar.Pattern

/-!
# Statements

## Main definitions

* `simpleStatements` — the statements of one line.
* `statement` — a line of simple statements, or one compound statement.
-/

namespace CodeAudit.Script

open Reader

/-- Statements as the main body of their parent. -/
def asBody (statements : List Node) : List Node :=
  statements.map (·.asPart .body)

/-! ## Simple statements -/

variable (rules : Rules)

/-- The right side of an assignment. -/
def assignedValue : Reader Node := do
  if ← seesWord "yield" then yieldExpression rules (starExpressions rules) else starExpressions rules

/-- The targets and the value of an assignment behind its first equals sign. -/
def assignmentTail : Nat → Reader (List Node)
  | 0 => fail
  | bound + 1 => do
    let value ← assignedValue rules
    if ← acceptOp "=" then
      ensure (isTarget value)
      return value :: (← assignmentTail bound)
    else return [value]

/-- The operator of an augmented assignment. -/
def augmentedOperator? (t : Token) : Option String :=
  match t.lexeme with
  | .op text =>
    if text ∈ ["+=", "-=", "*=", "@=", "/=", "%=", "&=", "|=", "^=", "<<=", ">>=", "**=", "//="] then
      some (String.ofList (text.toList.dropLast))
    else none
  | _ => none

/-- A statement that starts with an expression: an assignment of some kind, or the expression alone. -/
def expressionStatement : Reader Node := do
  let start ← here
  let first ← starExpressions rules
  match augmentedOperator? (← peek) with
  | some operator =>
    ensure (isSingleTarget first)
    let _ ← take
    let value ← assignedValue rules
    node start (.augAssign operator) [first, value.asPart .value]
  | none =>
    if ← seesOp ":" then
      ensure (isSingleTarget first)
      let _ ← take
      let note ← rules.expression
      let value ← if ← acceptOp "=" then (do return [← assignedValue rules]) else pure []
      node start .annAssign (first :: note :: value)
    else if ← acceptOp "=" then
      ensure (isTarget first)
      let rest ← assignmentTail rules rules.bound
      node start .assign (first :: rest)
    else node start .expression [first.asPart .value]

/-- A dotted name, with its parts joined by points. -/
def dottedName : Reader String := do
  let first ← name
  let more ← repeatWhile (acceptOp ".") name rules.bound
  return String.intercalate "." (first :: more)

/-- A name for what is imported. -/
def importAlias (imported : Reader String) : Reader Node := do
  let start ← here
  let source ← imported
  if ← acceptWord "as" then
    let _ ← name
    node start (.alias source) []
  else node start (.alias source) []

/-- Whether a name is next. -/
def isNameToken (t : Token) : Bool :=
  match t.lexeme with
  | .name _ => true
  | _ => false

/-- The names of an import from a module. -/
def importedNames : Reader (List Node) := do
  let start ← here
  if ← acceptOp "*" then return [← node start (.alias "*") []]
  else if ← acceptOp "(" then
    let (items, _) ← commaList rules.bound isNameToken (importAlias name)
    expectOp ")"
    return items
  else
    let (items, trailing) ← commaList rules.bound isNameToken (importAlias name)
    ensure (!trailing)
    return items

/-- The points before the module of an import; an ellipsis counts three. -/
def importLevel : Nat → Reader Nat
  | 0 => fail
  | bound + 1 => do
    if ← acceptOp "." then return (← importLevel bound) + 1
    else if ← acceptOp "..." then return (← importLevel bound) + 3
    else return 0

/-- An import statement. -/
def importStatement : Reader Node := do
  let start ← here
  if ← acceptWord "import" then
    let (items, trailing) ← commaList rules.bound isNameToken (importAlias (dottedName rules))
    ensure (!trailing)
    node start .importStmt items
  else
    expectWord "from"
    let level ← importLevel rules.bound
    if level ≠ 0 && (← seesWord "import") then
      expectWord "import"
      node start (.importFrom none level) (← importedNames rules)
    else
      let source ← dottedName rules
      expectWord "import"
      node start (.importFrom (some source) level) (← importedNames rules)

/-- Names with commas between them. -/
def nameList : Reader Unit := do
  let (_, trailing) ← commaList rules.bound isNameToken name
  ensure (!trailing)

/-- The statements that start with a keyword and stand on one line. -/
def keywordStatement (word : String) : Reader Node := do
  let start ← here
  let optional : Reader (List Node) := do
    if startsItem (← peek) then return [← starExpressions rules] else return []
  match word with
  | "return" =>
    expectWord "return"
    node start .returnStmt (← optional)
  | "pass" =>
    expectWord "pass"
    node start .passStmt []
  | "break" =>
    expectWord "break"
    node start .breakStmt []
  | "continue" =>
    expectWord "continue"
    node start .continueStmt []
  | "raise" =>
    expectWord "raise"
    if startsExpression (← peek) then
      let error ← rules.expression
      let cause ← if ← acceptWord "from" then (do return [← rules.expression]) else pure []
      node start .raiseStmt (error :: cause)
    else node start .raiseStmt []
  | "del" =>
    expectWord "del"
    let (items, _) ← commaList rules.bound startsExpression (primary rules)
    ensure (items.all isDeletable)
    ensure ((← seesOp ";") || (← sees .newline))
    node start .delete items
  | "assert" =>
    expectWord "assert"
    let test ← rules.expression
    let note ← if ← acceptOp "," then (do return [← rules.expression]) else pure []
    node start .assertStmt (test :: note)
  | "global" =>
    expectWord "global"
    nameList rules
    node start .globalStmt []
  | "nonlocal" =>
    expectWord "nonlocal"
    nameList rules
    node start .nonlocalStmt []
  | "yield" =>
    let value ← yieldExpression rules (starExpressions rules)
    node start .expression [value.asPart .value]
  | "import" => importStatement rules
  | "from" => importStatement rules
  | _ => expressionStatement rules

/-- A statement that stands on one line. -/
def simpleStatement : Reader Node := do
  match (← peek).lexeme with
  | .keyword word => keywordStatement rules word
  | _ => expressionStatement rules

/-- The statements of one line, with semicolons between them and a line end behind them. -/
def simpleStatements : Reader (List Node) := do
  let first ← simpleStatement rules
  let guard : Reader Bool := do
    if ← acceptOp ";" then return !(← sees .newline) else return false
  let more ← repeatWhile guard (simpleStatement rules) rules.bound
  expect .newline
  return first :: more

/-! ## Compound statements -/

/-- A colon and the block behind it. -/
def colonBlock : Reader (List Node) := do
  expectOp ":"
  rules.block

/-- The block of an else clause, if there is one. -/
def elseBlock : Reader (List Node) := do
  if ← acceptWord "else" then colonBlock rules else return []

/-- The branches behind a condition: a further condition is a statement of its own inside the else part. -/
def ifTail : Nat → Reader (List Node)
  | 0 => fail
  | bound + 1 => do
    let start ← here
    if ← acceptWord "elif" then
      let test ← namedExpression rules
      let body ← colonBlock rules
      let other ← ifTail bound
      return [← node start .ifStmt (test :: asBody body ++ other)]
    else elseBlock rules

/-- A conditional statement. -/
def ifStatement : Reader Node := do
  let start ← here
  expectWord "if"
  let test ← namedExpression rules
  let body ← colonBlock rules
  let other ← ifTail rules rules.bound
  node start .ifStmt (test :: asBody body ++ other)

/-- A loop with a condition. -/
def whileStatement : Reader Node := do
  let start ← here
  expectWord "while"
  let test ← namedExpression rules
  let body ← colonBlock rules
  let other ← elseBlock rules
  node start .whileLoop (test :: asBody body ++ other)

/-- A loop over items. -/
def forStatement (start : Pos) (shape : Shape) : Reader Node := do
  expectWord "for"
  let target ← targets rules (primary rules)
  expectWord "in"
  let source ← starExpressions rules
  let body ← colonBlock rules
  let other ← elseBlock rules
  node start shape (target :: source :: asBody body ++ other)

/-- A context of a with statement, with an optional target. -/
def withItem : Reader Node := do
  let start ← here
  let context ← rules.expression
  if ← acceptWord "as" then
    let target ← targetItem (primary rules)
    ensure (isTarget target)
    ensure ((← seesOp ",") || (← seesOp ")") || (← seesOp ":"))
    node start .withItem [context, target]
  else node start .withItem [context]

/-- A statement that works in contexts, which may stand in parentheses. -/
def withStatement (start : Pos) (shape : Shape) : Reader Node := do
  expectWord "with"
  let enclosed : Reader (List Node) := do
    expectOp "("
    let (items, _) ← commaList rules.bound startsExpression (withItem rules)
    expectOp ")"
    ensure (← seesOp ":")
    return items
  let plain : Reader (List Node) := do
    let (items, trailing) ← commaList rules.bound startsExpression (withItem rules)
    ensure (!trailing)
    return items
  let items ← orElse enclosed plain
  let body ← colonBlock rules
  node start shape (items ++ asBody body)

/-- A handler of a try statement. -/
def handler (group : Bool) : Reader Node := do
  let start ← here
  expectWord "except"
  if group then expectOp "*"
  let kind ←
    if !group && (← seesOp ":") then pure []
    else (do
      let kind ← rules.expression
      if ← acceptWord "as" then
        let _ ← name
        return [kind]
      else return [kind])
  let body ← colonBlock rules
  node start .exceptHandler (kind ++ asBody body)

/-- A statement with handlers, or with a last block, or both. All its handlers are of one kind. -/
def tryStatement : Reader Node := do
  let start ← here
  expectWord "try"
  let body ← colonBlock rules
  let group := (← peekSecond).lexeme = .op "*"
  let handlers ← repeatWhile (seesWord "except") (handler rules group) rules.bound
  let other ← if handlers.isEmpty then pure [] else elseBlock rules
  let final ← if ← acceptWord "finally" then (do return some (← colonBlock rules)) else pure none
  ensure (!handlers.isEmpty || final.isSome)
  let shape := if group && !handlers.isEmpty then .tryStar else .tryStmt
  node start shape (asBody body ++ handlers ++ other ++ final.getD [])

/-- A function definition behind its decorators. -/
def functionDefinition (start : Pos) (isAsync : Bool) (decorators : List Node) :
    Reader Node := do
  expectWord "def"
  let id ← name
  expectOp "("
  let params ← parameters rules true ")"
  expectOp ")"
  let result ← if ← acceptOp "->" then (do return [← rules.expression]) else pure []
  let body ← colonBlock rules
  let shape := if isAsync then .asyncFunctionDef id else .functionDef id
  node start shape (params :: asBody body ++ decorators ++ result)

/-- A class definition behind its decorators. -/
def classDefinition (decorators : List Node) : Reader Node := do
  let start ← here
  expectWord "class"
  let id ← name
  let bases ← if ← acceptOp "(" then arguments rules else pure []
  let body ← colonBlock rules
  node start (.classDef id) (bases ++ asBody body ++ decorators)

/-- A definition with decorators before it. -/
def decorated : Reader Node := do
  let decorator : Reader Node := do
    let value ← namedExpression rules
    expect .newline
    return value
  let decorators ← repeatWhile (acceptOp "@") decorator rules.bound
  let start ← here
  if ← seesWord "class" then classDefinition rules decorators
  else if ← acceptWord "async" then functionDefinition rules start true decorators
  else functionDefinition rules start false decorators

/-- A statement that starts with the keyword for asynchronous work. -/
def asyncStatement : Reader Node := do
  let start ← here
  expectWord "async"
  if ← seesWord "def" then functionDefinition rules start true []
  else if ← seesWord "for" then forStatement rules start .asyncFor
  else withStatement rules start .asyncWith

/-- What a match statement compares: one expression, or a tuple without parentheses. -/
def matchSubject : Reader Node := do
  let start ← here
  let (items, trailing) ← commaList rules.bound startsItem (starNamed rules)
  match items with
  | [single] =>
    if trailing then node start .tuple [single]
    else
      ensure (single.shape ≠ .starred)
      return single
  | _ => node start .tuple items

/-- A case of a match statement. -/
def matchCase : Reader Node := do
  let start ← here
  expect (.name "case")
  let chosen ← casePattern rules
  let guard ← if ← acceptWord "if" then (do return [← namedExpression rules]) else pure []
  let body ← colonBlock rules
  node start .matchCase (chosen :: guard ++ asBody body)

/-- A match statement. Its keyword is also a name, so a line that is none is read again. -/
def matchStatement : Reader Node := do
  let start ← here
  expect (.name "match")
  let subject ← matchSubject rules
  expectOp ":"
  expect .newline
  expect .indent
  let first ← matchCase rules
  let more ← repeatWhile (sees (.name "case")) (matchCase rules) rules.bound
  expect .dedent
  node start .matchStmt (subject :: first :: more)

/-- The keywords that start a compound statement. -/
def compoundWords : List String := ["if", "while", "for", "with", "try", "def", "class", "async"]

/-- A compound statement that starts with a keyword. -/
def compoundStatement (word : String) : Reader Node := do
  let start ← here
  match word with
  | "if" => ifStatement rules
  | "while" => whileStatement rules
  | "for" => forStatement rules start .forLoop
  | "with" => withStatement rules start .withStmt
  | "try" => tryStatement rules
  | "def" => functionDefinition rules start false []
  | "class" => classDefinition rules []
  | _ => asyncStatement rules

/-- **Statements**: a line of simple statements, or one compound statement. -/
def statement : Reader (List Node) := do
  match (← peek).lexeme with
  | .keyword word =>
    if word ∈ compoundWords then return [← compoundStatement rules word] else simpleStatements rules
  | .op "@" => return [← decorated rules]
  | .name "match" => orElse (do return [← matchStatement rules]) (simpleStatements rules)
  | _ => simpleStatements rules

/-- Statements as long as the guard says so. -/
def statements (guard : Reader Bool) : Reader (List Node) := do
  let rows ← repeatWhile guard (statement rules) rules.bound
  return rows.flatten

/-- The statements behind a colon: an indented block, or the rest of the line. -/
def block : Reader (List Node) := do
  if ← accept .newline then
    expect .indent
    let first ← statement rules
    let more ← statements rules (return !(← sees .dedent))
    expect .dedent
    return first ++ more
  else simpleStatements rules

end CodeAudit.Script
