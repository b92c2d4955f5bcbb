import CodeAudit.Script.Token
import CodeAudit.Text.Normal

/-!
# Reading a row of tokens

A reader takes tokens from a cursor and either gives a value or stops with the line it could not read.
The cursor remembers where the last token that is no layout ended, because a construct ends there.

## Main definitions

* `Cursor`, `Reader` — the state and the type of readers.
* `Rules` — the readers of the constructs that may stand inside each other.
-/

namespace CodeAudit.Script

/-- The tokens that are left, and where the last one that is no layout ended. -/
structure Cursor where
  rest : List Token
  last : Pos

/-- A reader of tokens. -/
abbrev Reader (α : Type) := StateT Cursor (Except SyntaxFault) α

namespace Reader

variable {α : Type}

/-- The next token; behind the last one stands the end of the input. -/
def peek : Reader Token := fun c =>
  match c.rest with
  | t :: _ => .ok (t, c)
  | [] => .ok (⟨.endOfInput, c.last, c.last⟩, c)

/-- The token behind the next. -/
def peekSecond : Reader Token := fun c =>
  match c.rest with
  | _ :: t :: _ => .ok (t, c)
  | _ => .ok (⟨.endOfInput, c.last, c.last⟩, c)

/-- Stops at the next token. -/
def fail : Reader α := do
  let t ← peek
  throw ⟨t.start.line⟩

/-- Takes the next token. -/
def take : Reader Token := fun c =>
  match c.rest with
  | t :: rest => .ok (t, ⟨rest, if t.isLayout then c.last else t.stop⟩)
  | [] => .error ⟨c.last.line⟩

/-- The place of the next token. -/
def here : Reader Pos :=
  return (← peek).start

/-- Stops unless a condition holds. -/
def ensure (condition : Bool) : Reader Unit :=
  if condition then pure () else fail

/-- The first reader's value, or else the second's from the same place. -/
def orElse (first second : Reader α) : Reader α := fun c =>
  match first c with
  | .ok result => .ok result
  | .error _ => second c

/-- Whether the next token is the given one. -/
def sees (lexeme : Lexeme) : Reader Bool :=
  return (← peek).lexeme = lexeme

/-- Takes the given token if it is next. -/
def accept (lexeme : Lexeme) : Reader Bool := do
  if ← sees lexeme then
    let _ ← take
    return true
  else return false

/-- Takes the given token. -/
def expect (lexeme : Lexeme) : Reader Unit := do
  ensure (← accept lexeme)

variable (text : String)

/-- Whether the next token is the given operator. -/
def seesOp : Reader Bool :=
  sees (.op text)

/-- Takes the given operator if it is next. -/
def acceptOp : Reader Bool :=
  accept (.op text)

/-- Takes the given operator. -/
def expectOp : Reader Unit :=
  expect (.op text)

/-- Whether the next token is the given keyword. -/
def seesWord : Reader Bool :=
  sees (.keyword text)

/-- Takes the given keyword if it is next. -/
def acceptWord : Reader Bool :=
  accept (.keyword text)

/-- Takes the given keyword. -/
def expectWord : Reader Unit :=
  expect (.keyword text)

/-- Takes a name and gives its normal form. -/
def name : Reader String := do
  match (← peek).lexeme with
  | .name text =>
    let _ ← take
    return Text.normalize text
  | _ => fail

/-- A node from a place to the end of the last token taken. -/
def node (start : Pos) (shape : Shape) (children : List Node) : Reader Node := fun c =>
  .ok (Node.mk .piece shape ⟨start, c.last⟩ children, c)

/-- Repeats an item as long as the guard says so. -/
def repeatWhile (guard : Reader Bool) (item : Reader α) : Nat → Reader (List α)
  | 0 => fail
  | bound + 1 => do
    if ← guard then
      let first ← item
      return first :: (← repeatWhile guard item bound)
    else return []

/-- Extends a value as long as the step gives one. -/
def chain (step : α → Reader (Option α)) : Nat → α → Reader α
  | 0, _ => fail
  | bound + 1, value => do
    match ← step value with
    | some next => chain step bound next
    | none => return value

/-- The items behind the first of a list with commas, and whether a comma stands at its end. A comma goes
on only if the token behind it may start an item. -/
def commaTail (starts : Token → Bool) (item : Reader α) : Nat → Reader (List α × Bool)
  | 0 => fail
  | bound + 1 => do
    if ← acceptOp "," then
      if starts (← peek) then
        let next ← item
        let (more, trailing) ← commaTail starts item bound
        return (next :: more, trailing)
      else return ([], true)
    else return ([], false)

/-- A list of items with commas between them, and whether a comma stands at its end. -/
def commaList (bound : Nat) (starts : Token → Bool) (item : Reader α) : Reader (List α × Bool) := do
  let first ← item
  let (more, trailing) ← commaTail starts item bound
  return (first :: more, trailing)

end Reader

/-- The constructs that may stand inside each other. At most four rules are used between two tokens that are
taken, so four times the number of tokens bounds the nesting; `bound` is at least the number of tokens that
are left. -/
structure Rules where
  /-- A conditional expression or a function expression. -/
  expression : Reader Node
  /-- A comparison under any number of negations. -/
  inversion : Reader Node
  /-- A power under any number of signs. -/
  factor : Reader Node
  /-- A pattern with its alternatives and its name. -/
  pattern : Reader Node
  /-- The statements behind a colon. -/
  block : Reader (List Node)
  /-- The expression in a field of a literal, given its line and its source. -/
  field : Nat → List Char → Except SyntaxFault Node
  /-- A bound on repetitions. -/
  bound : Nat

/-- The rules that accept nothing. -/
def Rules.none : Rules where
  expression := Reader.fail
  inversion := Reader.fail
  factor := Reader.fail
  pattern := Reader.fail
  block := Reader.fail
  field := fun line _ => .error ⟨line⟩
  bound := 0

end CodeAudit.Script
