/-!
# Patterns

Patterns over text, tried in order: of two alternatives the first that lets the rest match is taken, and a
repetition takes as much as it can. A pattern may name parts of what it matches.

## Main definitions

* `Cursor` — a position in a text.
* `Pattern.match?`, `Pattern.matchAll` — the first match at a position, and all matches in a text.
-/

namespace CodeAudit.Text

/-- A position in a text: what follows, the character before it, how many characters have been passed since
a match was begun, and the named parts found so far, the latest first. -/
structure Cursor where
  rest : List Char
  before : Option Char
  passed : Nat
  parts : List (Nat × List Char)

/-- The start of a text. -/
def Cursor.ofText (s : List Char) : Cursor :=
  ⟨s, none, 0, []⟩

/-- The latest text found for a named part. -/
def Cursor.part? (c : Cursor) (name : Nat) : Option String :=
  (c.parts.find? (·.1 == name)).map fun (_, cs) => String.ofList cs

/-- A pattern. -/
inductive Pattern
  /-- The empty text. -/
  | empty
  /-- One character of a class. -/
  | one (p : Char → Bool)
  /-- One pattern behind another. -/
  | seq (a b : Pattern)
  /-- One of two patterns, the first by preference. -/
  | alt (a b : Pattern)
  /-- A pattern any number of times, as often as possible. -/
  | many (a : Pattern)
  /-- A part that can be asked for. -/
  | part (name : Nat) (a : Pattern)
  /-- The start of a line. -/
  | lineStart
  /-- The end of the text, or the place before its last character if that is a line feed. -/
  | textEnd

namespace Pattern

/-- A way to go on from a position. -/
abbrev Next := Cursor → Option Cursor

/-- Repeats a step as long as it makes progress, at most once for each character of a text, then goes on. -/
def iterate (step : Cursor → Next → Option Cursor) (next : Next) : List Char → Cursor → Option Cursor
  | [], c => next c
  | _ :: left, c =>
    match step c fun d => if c.passed < d.passed then iterate step next left d else none with
    | some d => some d
    | none => next c

/-- Runs a pattern at a position and goes on with `next` behind each match until that succeeds. -/
def run : Pattern → Cursor → Next → Option Cursor
  | empty, c, next => next c
  | one p, c, next =>
    match c.rest with
    | x :: rest => if p x then next ⟨rest, some x, c.passed + 1, c.parts⟩ else none
    | [] => none
  | seq a b, c, next => run a c fun d => run b d next
  | alt a b, c, next =>
    match run a c next with
    | some d => some d
    | none => run b c next
  | many a, c, next => iterate (fun c next => run a c next) next c.rest c
  | part name a, c, next =>
    run a c fun d => next { d with parts := (name, c.rest.take (d.passed - c.passed)) :: d.parts }
  | lineStart, c, next => if c.before.isNone || c.before == some '\n' then next c else none
  | textEnd, c, next => if c.rest.isEmpty || c.rest == ['\n'] then next c else none

variable (p : Pattern)

/-- The position behind the best match at a position. -/
def match? (c : Cursor) : Option Cursor :=
  p.run c some

/-- Whether a text starts with a match. -/
def matchesStart (s : String) : Bool :=
  (p.match? (Cursor.ofText s.toList)).isSome

/-- The matches in a text from left to right, none inside another; each is the position behind it. `gap`
is the number of characters that the last match still covers. -/
def matchAllFrom : (before : Option Char) → (gap : Nat) → List Char → List Cursor
  | before, gap, s =>
    match gap, s with
    | 0, [] => (p.match? ⟨[], before, 0, []⟩).toList
    | _ + 1, [] => []
    | gap + 1, x :: rest => matchAllFrom (some x) gap rest
    | 0, x :: rest =>
      match p.match? ⟨x :: rest, before, 0, []⟩ with
      | some c => c :: matchAllFrom (some x) (c.passed - 1) rest
      | none => matchAllFrom (some x) 0 rest

/-- The matches in a text. -/
def matchAll (s : String) : List Cursor :=
  matchAllFrom p none 0 s.toList

/-! ## Short forms -/

/-- Several patterns in a row. -/
def all : List Pattern → Pattern
  | [] => empty
  | [p] => p
  | p :: ps => seq p (all ps)

/-- One of several patterns. -/
def any : List Pattern → Pattern
  | [] => one fun _ => false
  | [p] => p
  | p :: ps => alt p (any ps)

/-- A pattern or nothing. -/
def optional : Pattern :=
  alt p empty

/-- A pattern at least once. -/
def some1 : Pattern :=
  seq p (many p)

/-- A fixed character. -/
def char (c : Char) : Pattern :=
  one (· == c)

/-- A fixed text. -/
def word (s : String) : Pattern :=
  all (s.toList.map char)

end Pattern

end CodeAudit.Text
