import CodeAudit.Text.Identifier
import CodeAudit.Script.Token

/-!
# Reading tokens

Line ends are unified first, and a last line without an end gets one. A line's indentation opens and
closes blocks unless a bracket is open; lines that hold only blanks and comments are passed over.

## Main definitions

* `Scan` — the state between two tokens.
* `tokenize` — the tokens of a source text, or the line of the first fault.
-/

namespace CodeAudit.Script

/-- The state between two tokens. -/
structure Scan where
  /-- The characters that are still to be read. -/
  rest : List Char
  /-- The place of the next character. -/
  pos : Pos
  /-- The widths of the open blocks, innermost first. -/
  indents : List (Nat × Nat)
  /-- The open brackets, innermost first. -/
  brackets : List Char
  /-- The tokens so far, last first. -/
  tokens : List Token

namespace Scan

/-- Moves over characters. -/
def skip (s : Scan) (n : Nat) : Scan :=
  { s with rest := s.rest.drop n, pos := (s.rest.take n).foldl Pos.after s.pos }

/-- Adds a token that covers the next `n` characters and moves over them. -/
def take (s : Scan) (lexeme : Lexeme) (n : Nat) : Scan :=
  let next := s.skip n
  { next with tokens := ⟨lexeme, s.pos, next.pos⟩ :: s.tokens }

/-- The fault at the current place. -/
def fault (s : Scan) : SyntaxFault :=
  ⟨s.pos.line⟩

end Scan

/-! ## Indentation -/

/-- The width of an indentation: `wide` has a tab stop in every eighth column, `narrow` in every column,
and `joined` is the width before the first backslash that joins lines. -/
structure Width where
  wide : Nat
  narrow : Nat
  joined : Nat

/-- The two widths that count for the blocks. A joined indentation keeps the width before its first
backslash. -/
def Width.effective (w : Width) : Nat × Nat :=
  if w.joined = 0 then (w.wide, w.narrow) else (w.joined, w.joined)

/-- Measures an indentation and counts its characters; nothing if a backslash does not join two lines. -/
def indentation (w : Width) (n : Nat) : List Char → Option (Width × Nat)
  | [] => some (w, n)
  | '\\' :: '\n' :: rest =>
    if rest.isEmpty then none
    else indentation { w with joined := if w.joined = 0 then w.wide else w.joined } (n + 2) rest
  | c :: rest =>
    if c == ' ' then indentation { w with wide := w.wide + 1, narrow := w.narrow + 1 } (n + 1) rest
    else if c == '\t' then
      indentation { w with wide := (w.wide / 8 + 1) * 8, narrow := w.narrow + 1 } (n + 1) rest
    else if c == '\x0c' then indentation { w with wide := 0, narrow := 0 } (n + 1) rest
    else if c == '\\' then none
    else some (w, n)

/-- The greatest number of nested blocks, the outermost included. -/
def maxBlocks : Nat := 100

/-- Closes the blocks that are wider than a line. -/
def closeBlocks (wide : Nat) : List (Nat × Nat) → Nat × List (Nat × Nat)
  | [] => (0, [])
  | block :: outer =>
    if wide < block.1 && !outer.isEmpty then
      let (n, left) := closeBlocks wide outer
      (n + 1, left)
    else (0, block :: outer)

/-- Opens or closes blocks for a line of the given width. Tabs and blanks have to agree: both ways to
count tabs must compare alike. -/
def adjustBlocks (width : Nat × Nat) (s : Scan) : Except SyntaxFault Scan :=
  match s.indents with
  | [] => .error s.fault
  | block :: _ =>
    if width.1 = block.1 then
      if width.2 = block.2 then .ok s else .error s.fault
    else if block.1 < width.1 then
      if maxBlocks ≤ s.indents.length || width.2 ≤ block.2 then .error s.fault
      else .ok { s.take .indent 0 with indents := width :: s.indents }
    else
      let (n, left) := closeBlocks width.1 s.indents
      if left.head? = some width then
        .ok { s with
          indents := left
          tokens := List.replicate n ⟨.dedent, s.pos, s.pos⟩ ++ s.tokens }
      else .error s.fault

/-! ## Single tokens -/

/-- The bracket that a closing bracket closes. -/
def openingOf (c : Char) : Char :=
  if c == ')' then '(' else if c == ']' then '[' else '\x7b'

/-- The greatest number of open brackets. -/
def maxBrackets : Nat := 200

/-- Reads an operator and keeps account of brackets. -/
def scanOperator (s : Scan) : Except SyntaxFault Scan :=
  match operatorAt? s.rest with
  | none => .error s.fault
  | some text =>
    let next := s.take (.op text) text.length
    match text.toList with
    | [c] =>
      if c == '(' || c == '[' || c == '\x7b' then
        if maxBrackets ≤ s.brackets.length then .error s.fault
        else .ok { next with brackets := c :: s.brackets }
      else if c == ')' || c == ']' || c == '\x7d' then
        match s.brackets with
        | opened :: outer => if opened == openingOf c then .ok { next with brackets := outer } else .error s.fault
        | [] => .error s.fault
      else .ok next
    | _ => .ok next

/-- Reads a name, a keyword or a string literal with letters before its quote. -/
def scanWord (s : Scan) : Except SyntaxFault Scan :=
  let word := s.rest.takeWhile inNameRun
  let behind := s.rest.drop word.length
  let quoted := behind.head? == some '"' || behind.head? == some '\''
  if quoted && isStringMark word then
    match stringLength? behind with
    | some n => .ok (s.take (.string (word ++ behind.take n)) (word.length + n))
    | none => .error s.fault
  else
    let text := String.ofList word
    if text ∈ keywords then .ok (s.take (.keyword text) word.length)
    else if Text.isIdentifier word then .ok (s.take (.name text) word.length)
    else .error s.fault

/-- Reads a number. Its characters lie in a run of name characters, points and signs. -/
def scanNumber (s : Scan) : Except SyntaxFault Scan :=
  let window := s.rest.takeWhile (fun c => inNameRun c || c == '.' || c == '+' || c == '-')
  match numberRest? window with
  | none => .error s.fault
  | some behind =>
    let text := window.take (window.length - behind.length)
    if isOverlongInteger text then .error s.fault
    else .ok (s.take (.number (String.ofList text)) text.length)

/-- Reads the token that starts at a character which is no blank, comment or line end. -/
def scanToken (s : Scan) : Except SyntaxFault Scan :=
  match s.rest with
  | [] => .ok s
  | c :: rest =>
    if c.isDigit || (c == '.' && (rest.head?.map Char.isDigit).getD false) then scanNumber s
    else if inNameRun c then scanWord s
    else if c == '"' || c == '\'' then
      match stringLength? s.rest with
      | some n => .ok (s.take (.string (s.rest.take n)) n)
      | none => .error s.fault
    else scanOperator s

/-! ## The whole text -/

/-- Ends the text: all blocks are closed. An open bracket leaves a token of its own, so a reader that stops
before it tells the place of an earlier fault. -/
def finish (s : Scan) : Scan :=
  if s.brackets.isEmpty then
    let closed : Scan := { s with
      indents := s.indents.drop (s.indents.length - 1)
      tokens := List.replicate (s.indents.length - 1) ⟨.dedent, s.pos, s.pos⟩ ++ s.tokens }
    closed.take .endOfInput 0
  else s.take .unclosed 0

/-- The number of characters of a comment. -/
def commentLength (s : List Char) : Nat :=
  (s.takeWhile (· != '\n')).length

/-- Reads on from a state, at the start of a line or inside one. Every step but the last takes at least
one character, so a bound of one more than the characters suffices. -/
def scanFrom : Nat → Bool → Scan → Except SyntaxFault Scan
  | 0, _, s => .error s.fault
  | bound + 1, true, s =>
    match indentation ⟨0, 0, 0⟩ 0 s.rest with
    | none => .error s.fault
    | some (width, n) =>
      let line := s.skip n
      match line.rest with
      | [] =>
        if line.brackets.isEmpty then (adjustBlocks width.effective line).map finish else .ok (finish line)
      | c :: _ =>
        if c == '#' || c == '\n' then scanFrom bound true (line.skip (commentLength line.rest + 1))
        else if line.brackets.isEmpty then (adjustBlocks width.effective line).bind (scanFrom bound false)
        else scanFrom bound false line
  | bound + 1, false, s =>
    match s.rest with
    | [] => .ok (finish s)
    | c :: rest =>
      if c == ' ' || c == '\t' || c == '\x0c' then scanFrom bound false (s.skip 1)
      else if c == '#' then scanFrom bound false (s.skip (commentLength s.rest))
      else if c == '\n' then
        if s.brackets.isEmpty then scanFrom bound true (s.take .newline 1)
        else scanFrom bound true (s.skip 1)
      else if c == '\\' then
        match rest with
        | '\n' :: _ :: _ => scanFrom bound false (s.skip 2)
        | _ => .error s.fault
      else (scanToken s).bind (scanFrom bound false)

/-- The source as it is read: unified line ends, and one at the end of the last line. -/
def prepareSource (source : String) : List Char :=
  let text := Text.unifyNewlines source.toList
  match text.getLast? with
  | some '\n' => text
  | none => text
  | some _ => text ++ ['\n']

/-- The tokens of prepared characters whose first line has the given number. -/
def tokenizeFrom (line : Nat) (text : List Char) : Except SyntaxFault (List Token) :=
  if '\x00' ∈ text then .error ⟨line⟩
  else (scanFrom (2 * text.length + 2) true ⟨text, ⟨line, 0⟩, [(0, 0)], [], []⟩).map (·.tokens.reverse)

/-- **Tokens of a source text**, or the line of the first fault. -/
def tokenize (source : String) : Except SyntaxFault (List Token) :=
  tokenizeFrom 1 (prepareSource source)

end CodeAudit.Script
