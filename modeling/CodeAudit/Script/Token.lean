import CodeAudit.Script.Tree

/-!
# Tokens of Python source

## Main definitions

* `Token` — a token with the stretch of source it covers.
* `numberRest?`, `stringLength?` — where a number or a string literal ends, if it is well formed.
-/

namespace CodeAudit.Script

/-- What a token is. Names and literals keep their source text. -/
inductive Lexeme
  | name (text : String)
  | keyword (text : String)
  | number (text : String)
  | string (text : List Char)
  | op (text : String)
  | newline
  | indent
  | dedent
  | endOfInput
  /-- The end of a text in which a bracket is still open; no construct takes it. -/
  | unclosed
deriving DecidableEq

/-- A token and its place. -/
structure Token where
  lexeme : Lexeme
  start : Pos
  stop : Pos

/-- Layout tokens carry no text of their own, so no construct ends at one. -/
def Token.isLayout (t : Token) : Bool :=
  match t.lexeme with
  | .newline | .indent | .dedent | .endOfInput | .unclosed => true
  | _ => false

/-- The words that are no names. -/
def keywords : List String :=
  ["False", "None", "True", "and", "as", "assert", "async", "await", "break", "class", "continue", "def",
    "del", "elif", "else", "except", "finally", "for", "from", "global", "if", "import", "in", "is",
    "lambda", "nonlocal", "not", "or", "pass", "raise", "return", "try", "while", "with", "yield"]

/-- The place behind a character. -/
def Pos.after (p : Pos) (c : Char) : Pos :=
  if c == '\n' then ⟨p.line + 1, 0⟩ else ⟨p.line, p.column + c.utf8Size⟩

/-- A character that belongs to the run of a name; whether the run is a name is checked afterwards. -/
def inNameRun (c : Char) : Bool :=
  c.isAlphanum || c == '_' || 128 ≤ c.toNat

/-! ## Numbers -/

/-- The rest behind digits that single underscores may divide. -/
def digitsRest? (digit : Char → Bool) : List Char → Option (List Char)
  | [] => some []
  | ['_'] => none
  | '_' :: d :: rest => if digit d then digitsRest? digit rest else none
  | c :: rest => if digit c then digitsRest? digit rest else some (c :: rest)

/-- The rest behind at least one digit, which an underscore may precede. -/
def someDigitsRest? (digit : Char → Bool) : List Char → Option (List Char)
  | '_' :: d :: rest => if digit d then digitsRest? digit rest else none
  | d :: rest => if digit d then digitsRest? digit rest else none
  | [] => none

variable (s : List Char)

/-- A word that may follow a number without a blank, at the start of the text. -/
def startsOperatorWord : Bool :=
  let word := s.takeWhile inNameRun
  word ∈ ["and".toList, "else".toList, "for".toList, "or".toList, "not".toList] ||
    (match word with
      | 'i' :: c :: _ => c == 'f' || c == 'n' || c == 's'
      | _ => false)

/-- A number may end before anything but the run of a name, operator words apart. -/
def mayFollowNumber : Bool :=
  match s with
  | c :: _ => !inNameRun c || startsOperatorWord s
  | [] => true

/-- The text itself, if a number may end before it. -/
def endNumber? : Option (List Char) :=
  if mayFollowNumber s then some s else none

/-- The rest of a number behind its digits: an imaginary mark or nothing. -/
def imaginaryRest? : List Char → Option (List Char)
  | 'j' :: rest => endNumber? rest
  | 'J' :: rest => endNumber? rest
  | rest => endNumber? rest

/-- The rest of a number behind its fraction: an exponent, an imaginary mark or nothing. -/
def exponentRest? : Option (List Char) :=
  match s with
  | e :: rest =>
    if e == 'e' || e == 'E' then
      match rest with
      | c :: more =>
        if c == '+' || c == '-' then
          match more with
          | d :: tail => if d.isDigit then (digitsRest? Char.isDigit tail).bind imaginaryRest? else none
          | [] => none
        else if c.isDigit then (digitsRest? Char.isDigit more).bind imaginaryRest?
        else endNumber? s
      | [] => endNumber? s
    else imaginaryRest? s
  | [] => some []

/-- The rest of a number behind its point. -/
def fractionRest? : List Char → Option (List Char)
  | d :: rest =>
    if d.isDigit then (digitsRest? Char.isDigit rest).bind exponentRest? else exponentRest? (d :: rest)
  | [] => some []

/-- The rest of a decimal number behind its integer part. An integer that starts with a zero has no other
digit than zeros, unless a fraction, an exponent or an imaginary mark follows. -/
def decimalRest? (leadingZero : Bool) (digits s : List Char) : Option (List Char) :=
  match s with
  | '.' :: rest => fractionRest? rest
  | c :: _ =>
    if c == 'e' || c == 'E' || c == 'j' || c == 'J' then exponentRest? s
    else if leadingZero && digits.any (fun d => d.isDigit && d != '0') then none
    else endNumber? s
  | [] => if leadingZero && digits.any (fun d => d.isDigit && d != '0') then none else some []

/-- A hexadecimal digit. -/
def isHexDigit (c : Char) : Bool :=
  c.isDigit || ('a' ≤ c && c ≤ 'f') || ('A' ≤ c && c ≤ 'F')

/-- An octal digit. -/
def isOctalDigit (c : Char) : Bool :=
  '0' ≤ c && c ≤ '7'

/-- A binary digit. -/
def isBinaryDigit (c : Char) : Bool :=
  c == '0' || c == '1'

/-- The rest behind the number at the start of a text, which starts with a digit, or with a point and a
digit; nothing if the number is malformed. -/
def numberRest? : Option (List Char) :=
  match s with
  | '.' :: rest => fractionRest? rest
  | '0' :: rest =>
    match rest with
    | c :: more =>
      if c == 'x' || c == 'X' then (someDigitsRest? isHexDigit more).bind endNumber?
      else if c == 'o' || c == 'O' then (someDigitsRest? isOctalDigit more).bind endNumber?
      else if c == 'b' || c == 'B' then (someDigitsRest? isBinaryDigit more).bind endNumber?
      else (digitsRest? Char.isDigit rest).bind fun tail =>
        decimalRest? true (rest.take (rest.length - tail.length)) tail
    | [] => some []
  | _ :: rest => (digitsRest? Char.isDigit rest).bind (decimalRest? false [])
  | [] => none

/-- The greatest number of digits of a decimal integer. -/
def maxIntegerDigits : Nat := 4300

/-- A decimal integer with more digits than are converted. -/
def isOverlongInteger (text : List Char) : Bool :=
  text.all (fun c => c.isDigit || c == '_') && maxIntegerDigits < (text.filter Char.isDigit).length

/-! ## Strings -/

/-- The number of characters up to the quote that closes a literal on one line. -/
def closeSingle? (quote : Char) (n : Nat) : List Char → Option Nat
  | [] => none
  | ['\\'] => none
  | '\\' :: _ :: rest => closeSingle? quote (n + 2) rest
  | c :: rest =>
    if c == quote then some (n + 1) else if c == '\n' then none else closeSingle? quote (n + 1) rest

/-- The number of characters up to the three quotes that close a literal. -/
def closeTriple? (quote : Char) (n : Nat) : List Char → Option Nat
  | [] => none
  | ['\\'] => none
  | '\\' :: _ :: rest => closeTriple? quote (n + 2) rest
  | c :: rest =>
    match rest with
    | b :: a :: _ =>
      if c == quote && b == quote && a == quote then some (n + 3) else closeTriple? quote (n + 1) rest
    | _ => closeTriple? quote (n + 1) rest

/-- The number of characters of the string literal that starts with the given quote; nothing if it is not
closed. -/
def stringLength? : List Char → Option Nat
  | q :: rest =>
    match rest with
    | b :: a :: more =>
      if b == q && a == q then closeTriple? q 3 more
      else if b == q then some 2
      else closeSingle? q 1 rest
    | [b] => if b == q then some 2 else none
    | [] => none
  | [] => none

/-- The letters that may stand before the quote of a string literal. -/
def isStringMark (letters : List Char) : Bool :=
  letters.map Char.toLower ∈
    [['b'], ['u'], ['r'], ['f'], ['b', 'r'], ['r', 'b'], ['f', 'r'], ['r', 'f']]

/-! ## Operators -/

/-- The operators of three, two and one characters. -/
def operators3 : List String := ["**=", "//=", "<<=", ">>=", "..."]

@[inherit_doc operators3]
def operators2 : List String :=
  ["!=", "%=", "&=", "**", "*=", "+=", "-=", "->", "//", "/=", ":=", "<<", "<=", "<>", "==", ">=", ">>",
    "@=", "^=", "|="]

@[inherit_doc operators3]
def operators1 : List String :=
  ["(", ")", "[", "]", "\x7b", "\x7d", ":", ",", ";", "+", "-", "*", "/", "|", "&", "<", ">", "=", ".",
    "%", "~", "^", "@"]

/-- The longest operator at the start of a text. -/
def operatorAt? : Option String :=
  let three := String.ofList (s.take 3)
  let two := String.ofList (s.take 2)
  let one := String.ofList (s.take 1)
  if three ∈ operators3 then some three
  else if two ∈ operators2 then some two
  else if one ∈ operators1 then some one
  else none

end CodeAudit.Script
