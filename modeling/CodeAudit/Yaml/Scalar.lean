import CodeAudit.Yaml.Position

/-!
# Scalars in a YAML text

## Main definitions

* `Yaml.plain` — a scalar without quotes.
* `Yaml.block` — a scalar on lines of its own.
-/

namespace CodeAudit.Yaml

/-! ## Plain scalars -/

/-- The length of the part of a plain scalar that stands at the start of a text, without blanks. -/
def plainLength (inFlow : Bool) : List Char → Nat
  | [] => 0
  | c :: rest =>
    let next := rest.headD endMark
    let stopsAtColon := c == ':' && (isGap next || (inFlow && ",[]\x7b\x7d".toList.contains next))
    if isGap c || stopsAtColon || (inFlow && ",?[]\x7b\x7d".toList.contains c) then 0
    else plainLength inFlow rest + 1

/-- The ends of lines and the blanks that stand at a position; nothing if a document ends there. -/
def plainBreaks : (fuel : Nat) → Pos → Option (List Char) × Pos
  | 0, p => (some [], p)
  | fuel + 1, p =>
    if p.peek == ' ' then plainBreaks fuel p.forward
    else if isBreak p.peek then
      let (br, p) := p.lineBreak
      if p.atSeparator then (none, p)
      else
        let (more, p) := plainBreaks fuel p
        (more.map (br ++ ·), p)
    else (some [], p)

/-- What several line ends stand for: the first one alone is a blank, and is left out before others. -/
def folded (first others : List Char) : List Char :=
  if first != ['\n'] then first ++ others else if others.isEmpty then [' '] else others

/-- The blanks between two parts of a plain scalar, the position behind them, and whether a line ended. -/
def plainSpaces (p : Pos) : List Char × Pos × Bool :=
  let (blanks, p) := p.takeWhile (· == ' ')
  if isBreak p.peek then
    let (br, p) := p.lineBreak
    if p.atSeparator then ([], p, true)
    else
      match plainBreaks p.rest.length p with
      | (some breaks, p) => (folded br breaks, p, true)
      | (none, p) => ([], p, true)
  else (blanks, p, false)

/-- The rest of a plain scalar, behind blanks that were read. The result tells whether a line ended behind
the last part. -/
def plainFrom (inFlow : Bool) (indent : Int) (spaces : List Char) : (fuel : Nat) → Pos → List Char × Pos × Bool
  | 0, p => ([], p, false)
  | fuel + 1, p =>
    let length := if p.peek == '#' then 0 else plainLength inFlow p.rest
    if length = 0 then ([], p, false)
    else
      let part := p.rest.take length
      let (next, q, ended) := plainSpaces (p.skip length)
      if next.isEmpty || q.peek == '#' || (!inFlow && (q.column : Int) < indent) then (spaces ++ part, q, ended)
      else
        let (more, r, last) := plainFrom inFlow indent next fuel q
        (spaces ++ part ++ more, r, if more.isEmpty then ended else last)

/-- **A scalar without quotes**, which goes on over lines that are indented enough. -/
def plain (inFlow : Bool) (indent : Int) (p : Pos) : String × Pos × Bool :=
  let (cs, q, ended) := plainFrom inFlow (indent + 1) [] p.rest.length p
  (String.ofList cs, q, ended)

/-! ## Quoted scalars -/

/-- What a letter stands for behind a backslash. -/
def escaped? (c : Char) : Option Char :=
  match c with
  | '0' => some '\x00'
  | 'a' => some '\x07'
  | 'b' => some '\x08'
  | 't' | '\t' => some '\t'
  | 'n' => some '\n'
  | 'v' => some '\x0b'
  | 'f' => some '\x0c'
  | 'r' => some '\r'
  | 'e' => some '\x1b'
  | ' ' => some ' '
  | '"' => some '"'
  | '\\' => some '\\'
  | '/' => some '/'
  | 'N' => some '\x85'
  | '_' => some '\xa0'
  | 'L' => some '\u2028'
  | 'P' => some '\u2029'
  | _ => none

/-- How many digits follow a letter behind a backslash. -/
def escapeWidth? (c : Char) : Option Nat :=
  if c == 'x' then some 2 else if c == 'u' then some 4 else if c == 'U' then some 8 else none

/-- The value of a hexadecimal digit. -/
def hexDigit? (c : Char) : Option Nat :=
  if c.isDigit then some (c.toNat - 48)
  else if 'a' ≤ c && c ≤ 'f' then some (c.toNat - 87)
  else if 'A' ≤ c && c ≤ 'F' then some (c.toNat - 55)
  else none

/-- The character with a hexadecimal number. -/
def hexChar? (digits : List Char) : Option Char := do
  let values ← digits.mapM hexDigit?
  let n := values.foldl (fun acc d => acc * 16 + d) 0
  if h : n.isValidChar then some (Char.ofNatAux n h) else none

/-- The ends of lines and blanks at a position inside quotes, where no document may end. -/
def quotedBreaks? : (fuel : Nat) → Pos → Option (List Char × Pos)
  | 0, p => some ([], p)
  | fuel + 1, p =>
    if p.atSeparator then none
    else
      let p := p.skipWhile fun c => c == ' ' || c == '\t'
      if isBreak p.peek then do
        let (br, p) := p.lineBreak
        let (more, p) ← quotedBreaks? fuel p
        return (br ++ more, p)
      else some ([], p)

/-- The characters for which a backslash and what follows it stand. -/
def escape? (p : Pos) : Option (List Char × Pos) :=
  let c := p.peek
  match escaped? c, escapeWidth? c with
  | some e, _ => some ([e], p.forward)
  | none, some width => do
    let p := p.forward
    if p.rest.length < width then none
    else return ([← hexChar? (p.rest.take width)], p.skip width)
  | none, none => if isBreak c then quotedBreaks? p.rest.length p.lineBreak.2 else none

/-- The blanks at a position inside quotes. -/
def quotedSpaces? (p : Pos) : Option (List Char × Pos) :=
  let (blanks, p) := p.takeWhile fun c => c == ' ' || c == '\t'
  if p.peek == endMark then none
  else if isBreak p.peek then do
    let (br, p) := p.lineBreak
    let (breaks, p) ← quotedBreaks? p.rest.length p
    return (folded br breaks, p)
  else some (blanks, p)

/-- The rest of a quoted scalar up to its closing quote, and the position behind that. -/
def quotedFrom? (double : Bool) : (fuel : Nat) → Pos → Option (List Char × Pos)
  | 0, _ => none
  | fuel + 1, p =>
    let c := p.peek
    let goOn (part : List Char) (p : Pos) : Option (List Char × Pos) := do
      let (more, p) ← quotedFrom? double fuel p
      return (part ++ more, p)
    if double then
      if c == '"' then some ([], p.forward)
      else if c == '\\' then do
        let (part, p) ← escape? p.forward
        goOn part p
      else if isGap c then do
        let (part, p) ← quotedSpaces? p
        goOn part p
      else goOn [c] p.forward
    else if c == '\'' then
      if p.peek 1 == '\'' then goOn [c] (p.skip 2) else some ([], p.forward)
    else if isGap c then do
      let (part, p) ← quotedSpaces? p
      goOn part p
    else goOn [c] p.forward

/-- **A scalar in quotes.** -/
def quoted? (p : Pos) : Option (String × Pos) := do
  let (cs, q) ← quotedFrom? (p.peek == '"') (p.rest.length + 1) p.forward
  return (String.ofList cs, q)

/-! ## Scalars on lines of their own -/

/-- What happens to the line ends behind the text of a block. -/
inductive Chomp
  | strip
  | clip
  | keep
deriving DecidableEq

/-- The sign for the line ends. -/
def chompOf? (c : Char) : Option Chomp :=
  if c == '+' then some .keep else if c == '-' then some .strip else none

/-- A digit other than zero; zero is refused. -/
def incrementOf (p : Pos) : Option (Option Nat × Pos) :=
  let c := p.peek
  if c == '0' then none
  else if c.isDigit then some (some (c.toNat - 48), p.forward)
  else some (none, p)

/-- The head of a block: what happens to line ends, and by how much it is indented, in either order. -/
def blockHead? (p : Pos) : Option (Chomp × Option Nat × Pos) := do
  let (chomp, increment, p) ← match chompOf? p.peek with
    | some chomp => do
      let (increment, p) ← incrementOf p.forward
      pure (chomp, increment, p)
    | none => do
      let (increment, p) ← incrementOf p
      match increment, chompOf? p.peek with
      | some n, some chomp => pure (chomp, some n, p.forward)
      | _, _ => pure (.clip, increment, p)
  if p.peek == ' ' || isBreakOrEnd p.peek then some (chomp, increment, p) else none

/-- Passes the rest of a line, on which only a comment may stand. -/
def ignoredLine? (p : Pos) : Option Pos :=
  let p := p.skipWhile (· == ' ')
  let p := if p.peek == '#' then p.skipWhile (!isBreakOrEnd ·) else p
  if isBreakOrEnd p.peek then some p.lineBreak.2 else none

/-- The line ends at a position, the position behind them and the blanks after them, and the greatest
column that blanks reach. -/
def leadingBreaks (deepest : Nat) : (fuel : Nat) → Pos → List Char × Nat × Pos
  | 0, p => ([], deepest, p)
  | fuel + 1, p =>
    if p.peek == ' ' then leadingBreaks (max deepest p.forward.column) fuel p.forward
    else if isBreak p.peek then
      let (br, p) := p.lineBreak
      let (more, deepest, p) := leadingBreaks deepest fuel p
      (br ++ more, deepest, p)
    else ([], deepest, p)

/-- Passes blanks up to a column. -/
def indentTo (column : Nat) : (fuel : Nat) → Pos → Pos
  | 0, p => p
  | fuel + 1, p => if p.column < column && p.peek == ' ' then indentTo column fuel p.forward else p

/-- The line ends at a position, where blanks up to a column may stand before each. -/
def blockBreaks (column : Nat) : (fuel : Nat) → Pos → List Char × Pos
  | 0, p => ([], p)
  | fuel + 1, p =>
    let p := indentTo column column p
    if isBreak p.peek then
      let (br, p) := p.lineBreak
      let (more, p) := blockBreaks column fuel p
      (br ++ more, p)
    else ([], p)

/-- The lines of a block from the one at a position, the end of the last line, and the line ends behind it. -/
def blockLines (isFolded : Bool) (column : Nat) : (fuel : Nat) → Pos → List Char × List Char × List Char × Pos
  | 0, p => ([], [], [], p)
  | fuel + 1, p =>
    let flush := !(p.peek == ' ' || p.peek == '\t')
    let (text, p) := p.takeWhile (!isBreakOrEnd ·)
    let (br, p) := p.lineBreak
    let (breaks, p) := blockBreaks column (p.rest.length + 1) p
    if p.column = column && p.peek != endMark then
      let joint :=
        if isFolded && br == ['\n'] && flush && !(p.peek == ' ' || p.peek == '\t') then
          (if breaks.isEmpty then [' '] else [])
        else br
      let (more, last, behind, p) := blockLines isFolded column fuel p
      (text ++ joint ++ breaks ++ more, last, behind, p)
    else (text, br, breaks, p)

/-- **A scalar on lines of its own** below an indentation. -/
def block? (isFolded : Bool) (indent : Int) (p : Pos) : Option (String × Pos) := do
  let (chomp, increment, p) ← blockHead? p.forward
  let p ← ignoredLine? p
  let least := (max 1 (indent + 1)).toNat
  let (breaks, column, p) :=
    match increment with
    | none =>
      let (breaks, deepest, p) := leadingBreaks 0 p.rest.length p
      (breaks, max least deepest, p)
    | some n =>
      let column := least + n - 1
      let (breaks, p) := blockBreaks column (p.rest.length + 1) p
      (breaks, column, p)
  let (text, last, behind, p) :=
    if p.column = column && p.peek != endMark then
      let (text, last, behind, p) := blockLines isFolded column (p.rest.length + 1) p
      (breaks ++ text, last, behind, p)
    else ([], [], breaks, p)
  let tail := match chomp with
    | .strip => []
    | .clip => last
    | .keep => last ++ behind
  return (String.ofList (text ++ tail), p)

end CodeAudit.Yaml
