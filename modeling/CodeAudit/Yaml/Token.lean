import CodeAudit.Yaml.Scalar
import CodeAudit.Text.Utf8

/-!
# Tokens of a YAML text

The tokens make the layout of a text explicit: the start and end of every indented collection and every key
that only a later colon shows to be one have tokens of their own.

## Main definitions

* `Yaml.Token` — the tokens.
* `Yaml.tokens?` — the tokens of a text; nothing if the text is malformed.
-/

namespace CodeAudit.Yaml

/-- A line that tells how a document is to be read. -/
inductive Directive
  | version (major minor : Nat)
  | handle (name meaning : String)
  | other

/-- A token. -/
inductive Token
  | directive (d : Directive)
  | documentStart
  | documentEnd
  | listStart
  | mapStart
  | blockEnd
  | openList
  | closeList
  | openMap
  | closeMap
  | comma
  | item
  | key
  | value
  | alias (name : String)
  | anchor (name : String)
  | tag (handle : Option String) (rest : String)
  | scalar (text : String) (isPlain : Bool)

/-! ## Words -/

/-- The word of a reference or of its anchor. -/
def anchorName? (p : Pos) : Option (String × Pos) :=
  let (name, q) := p.forward.takeWhile isNameChar
  if name.isEmpty || !(isGap q.peek || "?:,]\x7d%@\x60".toList.contains q.peek) then none
  else some (String.ofList name, q)

/-- Octets written as a percent sign and two digits. -/
def uriOctets? : (fuel : Nat) → Pos → Option (List UInt8 × Pos)
  | 0, p => some ([], p)
  | fuel + 1, p =>
    if p.peek == '%' then do
      let a ← hexDigit? (p.peek 1)
      let b ← hexDigit? (p.peek 2)
      let (more, q) ← uriOctets? fuel (p.skip 3)
      return ((a * 16 + b).toUInt8 :: more, q)
    else some ([], p)

/-- A character of a tag. -/
def isUriChar (c : Char) : Bool :=
  isNameChar c || ";/?:@&=+$,.!~*'()[]".toList.contains c

/-- The characters of a tag from a position on. -/
def uriFrom? : (fuel : Nat) → Pos → Option (List Char × Pos)
  | 0, p => some ([], p)
  | fuel + 1, p =>
    if p.peek == '%' then do
      let (octets, q) ← uriOctets? p.rest.length p
      let text ← Text.decode? octets
      let (more, q) ← uriFrom? fuel q
      return (text.toList ++ more, q)
    else if isUriChar p.peek then do
      let (more, q) ← uriFrom? fuel p.forward
      return (p.peek :: more, q)
    else some ([], p)

/-- A tag without its handle. -/
def uri? (p : Pos) : Option (String × Pos) := do
  let (cs, q) ← uriFrom? p.rest.length p
  if cs.isEmpty then none else some (String.ofList cs, q)

/-- The handle of a tag: an exclamation mark, or a word between two. -/
def tagHandle? (p : Pos) : Option (String × Pos) :=
  if p.peek != '!' then none
  else if p.peek 1 == ' ' then some ("!", p.forward)
  else
    let (name, q) := p.forward.takeWhile isNameChar
    if q.peek != '!' then none else some ("!" ++ String.ofList name ++ "!", q.forward)

/-- Whether a character ends a tag or a directive. -/
def endsWord (c : Char) : Bool :=
  c == ' ' || isBreakOrEnd c

/-- A tag. -/
def tag? (p : Pos) : Option (Token × Pos) := do
  let next := p.peek 1
  let (handle, rest, q) ←
    if next == '<' then do
      let (rest, q) ← uri? (p.skip 2)
      if q.peek == '>' then some (none, rest, q.forward) else none
    else if isGap next then some (none, "!", p.forward)
    else do
      let hasHandle := (p.forward.rest.takeWhile (!endsWord ·)).contains '!'
      let (handle, q) ← if hasHandle then tagHandle? p else some ("!", p.forward)
      let (rest, q) ← uri? q
      some (some handle, rest, q)
  if endsWord q.peek then some (.tag handle rest, q) else none

/-- A number without a sign. -/
def directiveNumber? (p : Pos) : Option (Nat × Pos) :=
  let (digits, q) := p.takeWhile Char.isDigit
  if digits.isEmpty then none else some (digits.foldl (fun n d => n * 10 + (d.toNat - 48)) 0, q)

/-- Passes blanks. -/
def skipBlanks (p : Pos) : Pos :=
  p.skipWhile (· == ' ')

/-- What a directive says. -/
def directiveBody? (name : String) (p : Pos) : Option (Directive × Pos) :=
  match name with
  | "YAML" => do
    let (major, q) ← directiveNumber? (skipBlanks p)
    if q.peek != '.' then none
    else
      let (minor, q) ← directiveNumber? q.forward
      if endsWord q.peek then some (.version major minor, q) else none
  | "TAG" => do
    let (handle, q) ← tagHandle? (skipBlanks p)
    if q.peek != ' ' then none
    else
      let (meaning, q) ← uri? (skipBlanks q)
      if endsWord q.peek then some (.handle handle meaning, q) else none
  | _ => some (.other, p.skipWhile (!isBreakOrEnd ·))

/-- A directive with the rest of its line. -/
def directive? (p : Pos) : Option (Token × Pos) := do
  let (name, q) := p.forward.takeWhile isNameChar
  if name.isEmpty || !endsWord q.peek then none
  else
    let (d, q) ← directiveBody? (String.ofList name) q
    return (.directive d, ← ignoredLine? q)

/-! ## The layout -/

/-- A place where a key may have begun: the number of the token there, and whether the text is malformed
unless a key is there. -/
structure KeyMark where
  number : Nat
  needed : Bool
  index : Nat
  line : Nat
  column : Nat

/-- What a reader knows about the text before a position: the position, the tokens so far, how many brackets
are open, the columns of the indented collections around it with the innermost first, whether a key may
begin, and for each depth of brackets the last place where one may have begun. -/
structure Layout where
  pos : Pos
  tokens : Array Token := #[]
  depth : Nat := 0
  columns : List Int := []
  keyAllowed : Bool := true
  marks : List (Nat × KeyMark) := []

namespace Layout

/-- The column of the innermost indented collection. -/
def indent (l : Layout) : Int :=
  l.columns.headD (-1)

/-- Adds a token. -/
def push (l : Layout) (t : Token) : Layout :=
  { l with tokens := l.tokens.push t }

/-- Adds a token and passes some characters. -/
def pushSkip (l : Layout) (t : Token) (n : Nat) : Layout :=
  { l.push t with pos := l.pos.skip n }

/-- Forgets the place where a key may have begun; a needed key must not be forgotten. -/
def forget? (l : Layout) : Option Layout :=
  if l.marks.any fun (depth, m) => depth == l.depth && m.needed then none
  else some { l with marks := l.marks.filter (·.1 != l.depth) }

/-- Notes that a key may begin here. -/
def note? (l : Layout) : Option Layout :=
  if l.keyAllowed then do
    let needed := l.depth = 0 && l.indent == (l.pos.column : Int)
    let l ← l.forget?
    let mark := ⟨l.tokens.size, needed, l.pos.index, l.pos.line, l.pos.column⟩
    return { l with marks := (l.depth, mark) :: l.marks }
  else some l

/-- Forgets places that are too far away: a key stays on one line and is no longer than 1024 characters. -/
def forgetFar? (l : Layout) : Option Layout :=
  let isFar (m : KeyMark) := m.line != l.pos.line || l.pos.index - m.index > 1024
  if l.marks.any fun (_, m) => isFar m && m.needed then none
  else some { l with marks := l.marks.filter fun (_, m) => !isFar m }

/-- Ends the indented collections that stand to the right of a column. -/
def unwind (l : Layout) (column : Int) : Layout :=
  if l.depth > 0 then l
  else
    let ended := l.columns.takeWhile (column < ·)
    { l with columns := l.columns.drop ended.length, tokens := l.tokens ++ ended.map fun _ => Token.blockEnd }

/-- Begins an indented collection at a column, if it is further to the right, by a token at some place. -/
def begin (l : Layout) (column : Nat) (place : Nat) (t : Token) : Layout :=
  if l.indent < (column : Int) then
    { l with
      columns := (column : Int) :: l.columns
      tokens := l.tokens.extract 0 place ++ #[t] ++ l.tokens.extract place l.tokens.size }
  else l

/-- Begins an indented collection here, where a key must be allowed; inside brackets there are none. -/
def beginHere? (l : Layout) (t : Token) : Option Layout :=
  if l.depth > 0 then some l
  else if l.keyAllowed then some (l.begin l.pos.column l.tokens.size t)
  else none

/-- Passes blanks, comments and the ends of lines. Behind the end of a line a key may begin. -/
def toNext (l : Layout) : (fuel : Nat) → Layout
  | 0 => l
  | fuel + 1 =>
    let p := skipBlanks l.pos
    let p := if p.peek == '#' then p.skipWhile (!isBreakOrEnd ·) else p
    if isBreak p.peek then
      toNext { l with pos := p.lineBreak.2, keyAllowed := l.keyAllowed || l.depth = 0 } fuel
    else { l with pos := p }

/-- Whether a plain scalar can begin at the position. -/
def plainBegins (l : Layout) : Bool :=
  let c := l.pos.peek
  !(isGap c || "-?:,[]\x7b\x7d#&*!|>'\"%@\x60".toList.contains c) ||
    (!isGap (l.pos.peek 1) && (c == '-' || (l.depth = 0 && (c == '?' || c == ':'))))

/-! ## Steps -/

/-- A line of three hyphens or dots. -/
def separator? (l : Layout) (t : Token) : Option Layout := do
  let l ← (l.unwind (-1)).forget?
  return { l.pushSkip t 3 with keyAllowed := false }

/-- An opening bracket. -/
def open? (l : Layout) (t : Token) : Option Layout := do
  let l ← l.note?
  return { l.pushSkip t 1 with depth := l.depth + 1, keyAllowed := true }

/-- A closing bracket. -/
def close? (l : Layout) (t : Token) : Option Layout := do
  let l ← l.forget?
  if l.depth = 0 then none else return { l.pushSkip t 1 with depth := l.depth - 1, keyAllowed := false }

/-- A comma. -/
def comma? (l : Layout) : Option Layout := do
  let l ← l.forget?
  return { l.pushSkip .comma 1 with keyAllowed := true }

/-- The hyphen before an item. -/
def item? (l : Layout) : Option Layout := do
  let l ← (← l.beginHere? .listStart).forget?
  return { l.pushSkip .item 1 with keyAllowed := true }

/-- The question mark before a key. -/
def key? (l : Layout) : Option Layout := do
  let l ← (← l.beginHere? .mapStart).forget?
  return { l.pushSkip .key 1 with keyAllowed := l.depth = 0 }

/-- The colon before a value. What began at the last place for a key is its key. -/
def value? (l : Layout) : Option Layout :=
  match l.marks.find? (·.1 == l.depth) with
  | some (_, m) =>
    let l := { l with
      marks := l.marks.filter (·.1 != l.depth)
      tokens := l.tokens.extract 0 m.number ++ #[Token.key] ++ l.tokens.extract m.number l.tokens.size }
    let l := if l.depth = 0 then l.begin m.column m.number .mapStart else l
    some { l.pushSkip .value 1 with keyAllowed := false }
  | none => do
    let l ← (← l.beginHere? .mapStart).forget?
    return { l.pushSkip .value 1 with keyAllowed := l.depth = 0 }

/-- A token that may begin a key, with the position behind it. -/
def word? (l : Layout) (read : Pos → Option (Token × Pos)) : Option Layout := do
  let l ← l.note?
  let (t, q) ← read l.pos
  return { l.push t with pos := q, keyAllowed := false }

/-- A scalar on lines of its own. -/
def block? (l : Layout) (isFolded : Bool) : Option Layout := do
  let l ← l.forget?
  let (text, q) ← Yaml.block? isFolded l.indent l.pos
  return { l.push (.scalar text false) with pos := q, keyAllowed := true }

/-- A plain scalar. Behind the end of its last line a key may begin. -/
def plain? (l : Layout) : Option Layout := do
  let l ← l.note?
  let (text, q, ended) := Yaml.plain (l.depth > 0) l.indent l.pos
  return { l.push (.scalar text true) with pos := q, keyAllowed := ended }

/-- The step at a character that is not the end of the text. -/
def step? (l : Layout) : Option Layout :=
  let p := l.pos
  let inFlow := l.depth > 0
  match p.peek with
  | '[' => l.open? .openList
  | '\x7b' => l.open? .openMap
  | ']' => l.close? .closeList
  | '\x7d' => l.close? .closeMap
  | ',' => l.comma?
  | '*' => l.word? fun p => (anchorName? p).map fun (name, q) => (.alias name, q)
  | '&' => l.word? fun p => (anchorName? p).map fun (name, q) => (.anchor name, q)
  | '!' => l.word? tag?
  | '\'' | '"' => l.word? fun p => (quoted? p).map fun (text, q) => (.scalar text false, q)
  | c =>
    if c == '%' && p.column = 0 then do
      let l ← (l.unwind (-1)).forget?
      let (t, q) ← directive? l.pos
      return { l.push t with pos := q, keyAllowed := false }
    else if c == '-' && p.column = 0 && p.atSeparator then l.separator? .documentStart
    else if c == '.' && p.column = 0 && p.atSeparator then l.separator? .documentEnd
    else if c == '-' && isGap (p.peek 1) then l.item?
    else if c == '?' && (inFlow || isGap (p.peek 1)) then l.key?
    else if c == ':' && (inFlow || isGap (p.peek 1)) then l.value?
    else if c == '|' && !inFlow then l.block? false
    else if c == '>' && !inFlow then l.block? true
    else if l.plainBegins then l.plain?
    else none

/-- Reads tokens up to the end of the text. -/
def run? (l : Layout) : (fuel : Nat) → Option (List Token)
  | 0 => none
  | fuel + 1 => do
    let l ← (l.toNext (l.pos.rest.length + 1)).forgetFar?
    let l := l.unwind l.pos.column
    if l.pos.rest.isEmpty then
      let l ← (l.unwind (-1)).forget?
      return l.tokens.toList
    else (← l.step?).run? fuel

end Layout

/-- **The tokens of a text**; nothing if it is malformed. -/
def tokens? (s : String) : Option (List Token) :=
  let cs := s.toList
  if cs.all isAllowed then
    let cs := if cs.head? == some '\ufeff' then cs.drop 1 else cs
    Layout.run? ⟨{ rest := cs }, #[], 0, [], true, []⟩ (cs.length + 1)
  else none

end CodeAudit.Yaml
