import CodeAudit.Text.Split

/-!
# Positions in a YAML text

## Main definitions

* `Yaml.Pos` — a position with its line and column.
* `Yaml.Pos.lineBreak` — passes the end of a line.
-/

namespace CodeAudit.Yaml

/-- A position in a text. -/
structure Pos where
  rest : List Char
  index : Nat := 0
  line : Nat := 0
  column : Nat := 0

/-- The mark that stands behind the end of a text. -/
def endMark : Char := '\x00'

/-- A character that ends a line. -/
def isBreak (c : Char) : Bool :=
  c == '\n' || c == '\r' || c == '\x85' || c == '\u2028' || c == '\u2029'

/-- A character that ends a line, or the end of the text. -/
def isBreakOrEnd (c : Char) : Bool :=
  isBreak c || c == endMark

/-- A character that ends a word: a blank, a tab, the end of a line or of the text. -/
def isGap (c : Char) : Bool :=
  c == ' ' || c == '\t' || isBreakOrEnd c

/-- A character of names: a letter or digit of the first rows, a hyphen or an underscore. -/
def isNameChar (c : Char) : Bool :=
  c.isAlphanum || c == '-' || c == '_'

/-- A character that a YAML text may hold. -/
def isAllowed (c : Char) : Bool :=
  let n := c.toNat
  n == 9 || n == 10 || n == 13 || (0x20 ≤ n && n ≤ 0x7e) || n == 0x85 || (0xa0 ≤ n && n ≤ 0xd7ff) ||
    (0xe000 ≤ n && n ≤ 0xfffd) || (0x10000 ≤ n && n ≤ 0x10ffff)

namespace Pos

/-- The character some places ahead. -/
def peek (p : Pos) (ahead : Nat := 0) : Char :=
  p.rest[ahead]?.getD endMark

/-- Whether a text stands at a position. -/
def startsWith (p : Pos) (s : String) : Bool :=
  s.toList.isPrefixOf p.rest

/-- Passes one character. -/
def forward (p : Pos) : Pos :=
  match p.rest with
  | [] => p
  | c :: rest =>
    if isBreak c && !(c == '\r' && rest.head? == some '\n') then ⟨rest, p.index + 1, p.line + 1, 0⟩
    else ⟨rest, p.index + 1, p.line, if c == '\ufeff' then p.column else p.column + 1⟩

/-- Passes some characters. -/
def skip (p : Pos) : Nat → Pos
  | 0 => p
  | n + 1 => p.forward.skip n

/-- The characters of a class that stand at a position, and the position behind them. -/
def takeWhile (p : Pos) (keep : Char → Bool) : List Char × Pos :=
  let cs := p.rest.takeWhile keep
  (cs, p.skip cs.length)

/-- Passes the characters of a class. -/
def skipWhile (p : Pos) (keep : Char → Bool) : Pos :=
  (p.takeWhile keep).2

/-- Passes the end of a line, if one stands at a position, and tells the character for which it stands. -/
def lineBreak (p : Pos) : List Char × Pos :=
  let c := p.peek
  if c == '\r' && p.peek 1 == '\n' then (['\n'], p.skip 2)
  else if c == '\r' || c == '\n' || c == '\x85' then (['\n'], p.forward)
  else if c == '\u2028' || c == '\u2029' then ([c], p.forward)
  else ([], p)

/-- Whether a document begins or ends at a position. -/
def atSeparator (p : Pos) : Bool :=
  (p.startsWith "---" || p.startsWith "...") && isGap (p.peek 3)

end Pos

end CodeAudit.Yaml
