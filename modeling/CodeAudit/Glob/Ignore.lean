import CodeAudit.Text.Blank
import CodeAudit.Text.Pattern
import CodeAudit.Text.Split

/-!
# Ignore rules

An ignore list has one rule a line. A rule matches paths segment by segment; a rule without an inner slash
applies at every depth, and a rule for a directory covers everything below it. A rule behind an
exclamation mark takes matching paths back. The last rule that matches a path decides.

## Main definitions

* `Ignore.Rule` — a rule: what it matches and what it decides.
* `Ignore.ignores` — whether a list of rules ignores a path.
-/

namespace CodeAudit.Ignore

open CodeAudit.Text

/-- A rule: paths that match the pattern are ignored, or taken back. -/
structure Rule where
  ignored : Bool
  pattern : Pattern

/-! ## Segments -/

/-- A character other than a slash. -/
def inSegment : Pattern :=
  .one (· != '/')

/-- A character other than a line feed. -/
def inLine : Pattern :=
  .one (· != '\n')

/-- The ranges of a class, from its text without brackets, or nothing if the ends of a range are out of
order. A hyphen at either end stands for itself. -/
def ranges? : List Char → Option (List (Char × Char))
  | [] => some []
  | lo :: '-' :: hi :: rest =>
    if hi < lo then none else (ranges? rest).map ((lo, hi) :: ·)
  | c :: rest => (ranges? rest).map ((c, c) :: ·)

/-- The class with a given text between its brackets. -/
def classOf? (body : List Char) : Option Pattern :=
  let (negated, inner) :=
    match body with
    | '!' :: inner => (true, inner)
    | '^' :: inner => (true, inner)
    | inner => (false, inner)
  (ranges? inner).map fun ranges =>
    .one fun x => ranges.any (fun (lo, hi) => lo ≤ x && x ≤ hi) != negated

/-- The number of characters at the start of a class among which a closing bracket stands for itself. -/
def leadLength : List Char → Nat
  | '!' :: ']' :: _ => 2
  | '^' :: ']' :: _ => 2
  | '!' :: _ => 1
  | '^' :: _ => 1
  | ']' :: _ => 1
  | _ => 0

/-- The length of a class up to its closing bracket, if it has one. -/
def classLength? (s : List Char) : Option Nat :=
  let lead := leadLength s
  let inner := (s.drop lead).takeWhile (· != ']')
  if lead + inner.length < s.length then some (lead + inner.length) else none

/-- The pattern of a segment. A backslash makes the next character stand for itself, and must have one;
`skip` is the number of characters that belong to a class already read. -/
def segment? : (skip : Nat) → List Char → Option Pattern
  | _, [] => some .empty
  | skip + 1, _ :: rest => segment? skip rest
  | 0, c :: rest =>
    if c == '\\' then
      match rest with
      | [] => none
      | d :: rest => (segment? 0 rest).map (.seq (.char d))
    else if c == '*' then (segment? 0 rest).map (.seq (.many inSegment))
    else if c == '?' then (segment? 0 rest).map (.seq inSegment)
    else if c == '[' then
      match classLength? rest with
      | some n => do
        let head ← classOf? (rest.take n)
        let tail ← segment? (n + 1) rest
        some (.seq head tail)
      | none => (segment? 0 rest).map (.seq (.char '['))
    else (segment? 0 rest).map (.seq (.char c))

/-! ## Rules -/

/-- Collapses neighbouring double stars into one. -/
def collapse : List (List Char) → List (List Char)
  | [] => []
  | seg :: rest =>
    match collapse rest with
    | next :: more => if seg == ['*', '*'] && next == ['*', '*'] then seg :: more else seg :: next :: more
    | [] => [seg]

/-- What may follow the last segment of a rule: a path below it. -/
def below : Pattern :=
  .optional (.seq (.char '/') (.many inLine))

/-- The pattern of segments from the second on; `slash` says whether a slash separates the next one from
what came before. -/
def tailPattern? (slash : Bool) : List (List Char) → Option Pattern
  | [] => some .empty
  | [seg] =>
    if seg == ['*', '*'] then some (.seq (.char '/') (.many inLine))
    else (single? seg).map fun p => .seq (slashed slash p) below
  | seg :: rest =>
    if seg == ['*', '*'] then
      (tailPattern? true rest).map (.seq (.optional (.seq (.char '/') (.some1 inLine))))
    else do
      let p ← single? seg
      let more ← tailPattern? true rest
      some (.seq (slashed slash p) more)
where
  /-- The pattern of one segment other than a double star. -/
  single? (seg : List Char) : Option Pattern :=
    if seg == ['*'] then some (.some1 inSegment) else segment? 0 seg
  /-- A pattern behind a slash, if one is needed. -/
  slashed (slash : Bool) (p : Pattern) : Pattern :=
    if slash then .seq (.char '/') p else p

/-- The pattern of all segments. -/
def pathPattern? (segments : List (List Char)) : Option Pattern :=
  match segments with
  | [] => none
  | [['*', '*']] => some (.seq (.some1 inSegment) (.optional (.seq (.char '/') (.many inLine))))
  | ['*', '*'] :: rest =>
    (tailPattern? false rest).map (.seq (.optional (.seq (.some1 inLine) (.char '/'))))
  | segments => tailPattern? false segments

/-- Brings the segments of a rule into normal form: they start at the root, and a directory stands for
everything below it. -/
def normalSegments (segments : List (List Char)) : List (List Char) :=
  let rooted :=
    match segments with
    | [] :: rest => rest
    | [seg] => if seg == ['*', '*'] then [seg] else [['*', '*'], seg]
    | [seg, []] => if seg == ['*', '*'] then [seg, []] else [['*', '*'], seg, []]
    | segments => segments
  if 1 < rooted.length && rooted.getLast? == some [] then rooted.dropLast ++ [['*', '*']] else rooted

/-- The pattern of a rule without its exclamation mark. A double star for a directory covers everything
but the files right below the root. -/
def rulePattern? (s : List Char) : Option Pattern :=
  let segments := collapse (pieces '/' s)
  if segments == [['*', '*'], []] then
    some (.all [.some1 inLine, .char '/', .many inLine, .textEnd])
  else (pathPattern? (normalSegments segments)).map (.seq · .textEnd)

/-- A line without the blanks at its ends; a blank behind a backslash at the end is kept. -/
def stripLine (line : String) : String :=
  if endsWith line "\\ " then trimStart line else trim line

/-- The rule of a line: comments, blank lines and a single slash are no rules, and a malformed line gives
nothing at all. -/
def ruleOf? (line : String) : Option (List Rule) :=
  match (stripLine line).toList with
  | [] => some []
  | '#' :: _ => some []
  | ['/'] => some []
  | '!' :: rest => (rulePattern? rest).map fun p => [⟨false, p⟩]
  | s => (rulePattern? s).map fun p => [⟨true, p⟩]

/-- The rules of a list of lines. -/
def parse? (lines : List String) : Option (List Rule) :=
  (lines.mapM ruleOf?).map List.flatten

/-- A path as rules see it: relative to the root. -/
def relative (path : String) : List Char :=
  match path.toList with
  | '/' :: rest => rest
  | '.' :: '/' :: rest => rest
  | s => s

/-- Whether a list of rules ignores a path: the last rule that matches decides. -/
def ignores (rules : List Rule) (path : String) : Bool :=
  let start := Cursor.ofText (relative path)
  rules.foldl (fun ignored rule => if (rule.pattern.match? start).isSome then rule.ignored else ignored) false

end CodeAudit.Ignore
