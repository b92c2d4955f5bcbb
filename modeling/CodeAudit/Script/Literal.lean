import CodeAudit.Script.Token
import CodeAudit.Text.CharacterName

/-!
# String literals

A literal is letters, quotes and a body. The letters say whether backslashes are kept, whether the value
is bytes, and whether the body holds fields in braces.

## Main definitions

* `Quoted` — a literal taken apart.
* `Quoted.text?` — the value of a literal without fields.
-/

namespace CodeAudit.Script

/-- A string literal taken apart. -/
structure Quoted where
  /-- Backslashes stand for themselves. -/
  raw : Bool
  /-- The value is bytes. -/
  bytes : Bool
  /-- The body holds fields in braces. -/
  format : Bool
  /-- The characters between the quotes. -/
  body : List Char
  /-- The number of characters before the body. -/
  opening : Nat

/-- Takes a literal apart; it is closed, because it is a token. -/
def Quoted.ofToken (text : List Char) : Quoted :=
  let letters := (text.takeWhile Char.isAlpha).map Char.toLower
  let quoted := text.drop letters.length
  let width := match quoted with
    | a :: b :: c :: _ => if a == b && b == c && 6 ≤ quoted.length then 3 else 1
    | _ => 1
  { raw := letters.contains 'r'
    bytes := letters.contains 'b'
    format := letters.contains 'f'
    body := (quoted.drop width).take (quoted.length - 2 * width)
    opening := letters.length + width }

/-! ## Escapes -/

/-- The value of a hexadecimal digit of either case. -/
def hexValue (c : Char) : Nat :=
  if c.isDigit then c.toNat - '0'.toNat else c.toLower.toNat - 'a'.toNat + 10

/-- The character with a hexadecimal number; nothing if a digit is missing or the number too great. -/
def hexChar? (digits : List Char) (count : Nat) : Option Char :=
  let n := digits.foldl (fun n c => 16 * n + hexValue c) 0
  if digits.length = count && digits.all isHexDigit && n < 0x110000 then
    some (if 0xd800 ≤ n && n < 0xe000 then '�' else Char.ofNat n)
  else none

/-- The characters that a one-letter escape stands for. -/
def simpleEscape? (c : Char) : Option (List Char) :=
  match c with
  | '\n' => some []
  | '\\' => some ['\\']
  | '\'' => some ['\'']
  | '"' => some ['"']
  | 'a' => some ['\x07']
  | 'b' => some ['\x08']
  | 'f' => some ['\x0c']
  | 'n' => some ['\n']
  | 'r' => some ['\r']
  | 't' => some ['\t']
  | 'v' => some ['\x0b']
  | _ => none

/-- Reads what follows a backslash: the characters it stands for and the number of characters taken. A
backslash before any other character, or at the end, stands for itself. -/
def escape? (s : List Char) : Option (List Char × Nat) :=
  match s with
  | [] => some (['\\'], 0)
  | c :: rest =>
    match simpleEscape? c with
    | some value => some (value, 1)
    | none =>
      if isOctalDigit c then
        let digits := (s.take 3).takeWhile isOctalDigit
        some ([Char.ofNat (digits.foldl (fun n d => 8 * n + hexValue d) 0)], digits.length)
      else if c == 'x' then (hexChar? (rest.take 2) 2).map fun v => ([v], 3)
      else if c == 'u' then (hexChar? (rest.take 4) 4).map fun v => ([v], 5)
      else if c == 'U' then (hexChar? (rest.take 8) 8).map fun v => ([v], 9)
      else if c == 'N' then
        match rest with
        | '\x7b' :: more =>
          let name := more.takeWhile (· != '\x7d')
          if name.length < more.length && !name.isEmpty then
            (Text.characterNamed? (String.ofList name)).map fun v => ([v], name.length + 3)
          else none
        | _ => none
      else some (['\\', c], 1)

/-- Replaces escapes in at most the given number of steps. -/
def unescapeWithin : Nat → List Char → Option (List Char)
  | 0, s => some s
  | _ + 1, [] => some []
  | n + 1, c :: rest =>
    if c == '\\' then
      (escape? rest).bind fun (value, taken) => (unescapeWithin n (rest.drop taken)).map (value ++ ·)
    else (unescapeWithin n rest).map (c :: ·)

/-- The text that a body with escapes stands for; nothing if an escape is malformed. -/
def unescape? (s : List Char) : Option (List Char) :=
  unescapeWithin s.length s

/-- Whether a body is well formed as bytes: ASCII, with two digits behind each hexadecimal escape. -/
def isByteBody (raw : Bool) : List Char → Bool
  | [] => true
  | '\\' :: c :: rest =>
    if raw || c != 'x' then c.toNat < 128 && isByteBody raw rest
    else
      match rest with
      | a :: b :: _ => isHexDigit a && isHexDigit b && isByteBody raw rest
      | _ => false
  | c :: rest => c.toNat < 128 && isByteBody raw rest

/-- The value of a literal that is neither bytes nor has fields. -/
def Quoted.text? (q : Quoted) : Option (List Char) :=
  if q.raw then some q.body else unescape? q.body

end CodeAudit.Script
