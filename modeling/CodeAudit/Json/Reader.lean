import CodeAudit.Datum.Basic
import CodeAudit.Number.Reading

/-!
# Reading JSON

Besides the standard's values, the names `NaN`, `Infinity` and `-Infinity` are read. A number without
point and exponent is an integer of any size; of two equal keys the later value counts.

## Main definitions

* `Json.read?` — the value that a text stands for.
-/

namespace CodeAudit.Json

/-- White space of JSON. -/
def isSpace (c : Char) : Bool :=
  c == ' ' || c == '\t' || c == '\n' || c == '\r'

/-- The rest behind white space. -/
def skipSpace (s : List Char) : List Char :=
  s.dropWhile isSpace

/-- The value of a hexadecimal digit of either case. -/
def hexDigit? (c : Char) : Option Nat :=
  if c.isDigit then some (c.toNat - '0'.toNat)
  else if 'a' ≤ c && c ≤ 'f' then some (c.toNat - 'a'.toNat + 10)
  else if 'A' ≤ c && c ≤ 'F' then some (c.toNat - 'A'.toNat + 10)
  else none

/-- The number of four hexadecimal digits. -/
def unit? (a b c d : Char) : Option Nat := do
  return 4096 * (← hexDigit? a) + 256 * (← hexDigit? b) + 16 * (← hexDigit? c) + (← hexDigit? d)

/-- The character of one 16-bit unit; a lone half of a pair is replaced. -/
def unitChar (n : Nat) : Char :=
  if 0xd800 ≤ n && n < 0xe000 then '�' else Char.ofNat n

/-- The character of a pair of 16-bit units. -/
def pairChar (high low : Nat) : Char :=
  Char.ofNat (0x10000 + (high - 0xd800) * 0x400 + (low - 0xdc00))

/-- The character behind a backslash, if it is one of the short escapes. -/
def shortEscape? (c : Char) : Option Char :=
  match c with
  | '"' => some '"'
  | '\\' => some '\\'
  | '/' => some '/'
  | 'b' => some '\x08'
  | 'f' => some '\x0c'
  | 'n' => some '\n'
  | 'r' => some '\r'
  | 't' => some '\t'
  | _ => none

/-- Reads a text behind its opening quote; `read` holds its characters, last first. -/
def readText? (read : List Char) : List Char → Option (String × List Char)
  | [] => none
  | '"' :: rest => some (String.ofList read.reverse, rest)
  | '\\' :: 'u' :: a :: b :: c :: d :: '\\' :: 'u' :: e :: f :: g :: h :: rest =>
    match unit? a b c d with
    | none => none
    | some high =>
      match unit? e f g h with
      | some low =>
        if 0xd800 ≤ high && high < 0xdc00 && 0xdc00 ≤ low && low < 0xe000 then
          readText? (pairChar high low :: read) rest
        else readText? (unitChar high :: read) ('\\' :: 'u' :: e :: f :: g :: h :: rest)
      | none => none
  | '\\' :: 'u' :: a :: b :: c :: d :: rest =>
    match unit? a b c d with
    | some n => readText? (unitChar n :: read) rest
    | none => none
  | '\\' :: c :: rest =>
    match shortEscape? c with
    | some value => readText? (value :: read) rest
    | none => none
  | c :: rest => if c.toNat < 32 then none else readText? (c :: read) rest

/-- Reads a number: an integer, or a double if it has a point or an exponent. -/
def readNumber? (s : List Char) : Option (Datum × List Char) :=
  let (negative, body) := match s with
    | '-' :: rest => (true, rest)
    | _ => (false, s)
  let whole := match body with
    | '0' :: _ => ['0']
    | _ => body.takeWhile Char.isDigit
  if whole.isEmpty then none
  else
    let rest := body.drop whole.length
    let (fraction, rest) := match rest with
      | '.' :: more =>
        let digits := more.takeWhile Char.isDigit
        if digits.isEmpty then ([], rest) else (digits, more.drop digits.length)
      | _ => ([], rest)
    let (exponent, rest) : Option Int × List Char := match rest with
      | e :: more =>
        if e == 'e' || e == 'E' then
          let (minus, more) := Number.takeSign more
          let digits := more.takeWhile Char.isDigit
          if digits.isEmpty then (none, rest)
          else
            let n : Int := Number.digitsValue digits
            (some (if minus then -n else n), more.drop digits.length)
        else (none, rest)
      | [] => (none, rest)
    if fraction.isEmpty && exponent.isNone then
      let n : Int := Number.digitsValue whole
      some (.int (if negative then -n else n), rest)
    else
      let x := Number.scale (Number.digitsValue (whole ++ fraction)) (exponent.getD 0 - fraction.length)
      some (.float (if negative then -x else x), rest)

/-- The rest of a text behind a word. -/
def dropWord? (word : String) (s : List Char) : Option (List Char) :=
  if s.take word.length == word.toList then some (s.drop word.length) else none

/-- Reads a named value or a number. -/
def readScalar? (s : List Char) : Option (Datum × List Char) :=
  let named (word : String) (value : Datum) := (dropWord? word s).map fun rest => (value, rest)
  (named "null" .null).or <| (named "true" (.bool true)).or <| (named "false" (.bool false)).or <|
    (named "NaN" (.float (0 / 0))).or <| (named "Infinity" (.float (1 / 0))).or <|
    (named "-Infinity" (.float (-1 / 0))).or <| readNumber? s

mutual

/-- Reads a value; every nested value is shorter, so the length of the text bounds the nesting. -/
def readValue? : Nat → List Char → Option (Datum × List Char)
  | 0, _ => none
  | bound + 1, s =>
    match s with
    | '"' :: rest => (readText? [] rest).map fun (t, left) => (.text t, left)
    | '[' :: rest =>
      match skipSpace rest with
      | ']' :: left => some (.list [], left)
      | inner => (readItems? bound inner).map fun (items, left) => (.list items, left)
    | '\x7b' :: rest =>
      match skipSpace rest with
      | '\x7d' :: left => some (.dict [], left)
      | inner => (readEntries? bound [] inner).map fun (entries, left) => (.dict entries, left)
    | _ => readScalar? s

/-- Reads the items of a list up to its closing bracket. -/
def readItems? : Nat → List Char → Option (List Datum × List Char)
  | 0, _ => none
  | bound + 1, s =>
    match readValue? bound s with
    | none => none
    | some (item, rest) =>
      match skipSpace rest with
      | ']' :: left => some ([item], left)
      | ',' :: more => (readItems? bound (skipSpace more)).map fun (items, left) => (item :: items, left)
      | _ => none

/-- Reads the entries of an object up to its closing brace, behind those that were read. -/
def readEntries? : Nat → List (Datum × Datum) → List Char → Option (List (Datum × Datum) × List Char)
  | 0, _, _ => none
  | bound + 1, entries, s =>
    match s with
    | '"' :: rest =>
      match readText? [] rest with
      | none => none
      | some (key, rest) =>
        match skipSpace rest with
        | ':' :: more =>
          match readValue? bound (skipSpace more) with
          | none => none
          | some (value, rest) =>
            let entries := Datum.insert (.text key) value entries
            match skipSpace rest with
            | '\x7d' :: left => some (entries, left)
            | ',' :: more => readEntries? bound entries (skipSpace more)
            | _ => none
        | _ => none
    | _ => none

end

/-- **The value of a JSON text**; nothing if the text is not JSON. -/
def read? (s : String) : Option Datum :=
  let text := s.toList
  match readValue? (2 * text.length + 2) (skipSpace text) with
  | some (value, rest) => if (skipSpace rest).isEmpty then some value else none
  | none => none

end CodeAudit.Json
