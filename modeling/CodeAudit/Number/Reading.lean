import CodeAudit.Number.Dyadic
import CodeAudit.Text.Blank
import CodeAudit.Text.Digit

/-!
# Numbers read from text

Blanks around a number are passed over, single underscores may divide its digits, and digits of any
script count.

## Main definitions

* `readInt?` — an integer with an optional sign.
* `readFloat?` — a decimal number with optional sign, point and exponent, or the name of a value that is
  no number.
-/

namespace CodeAudit.Number

/-- Replaces every decimal digit by the ASCII digit of its value. -/
def asciiDigits (s : List Char) : List Char :=
  s.map fun c =>
    match Text.digitValue? c with
    | some n => Char.ofNat ('0'.toNat + n)
    | none => c

/-- The number written by decimal digits. -/
def digitsValue (digits : List Char) : Nat :=
  digits.foldl (fun n c => 10 * n + (c.toNat - '0'.toNat)) 0

/-- A run of digits, which single underscores may divide, and the rest behind it. An underscore counts
only behind a digit. -/
def takeDigits (behindDigit : Bool) : List Char → List Char × List Char
  | '_' :: d :: rest =>
    if behindDigit && d.isDigit then
      let (digits, left) := takeDigits true rest
      (d :: digits, left)
    else ([], '_' :: d :: rest)
  | c :: rest =>
    if c.isDigit then
      let (digits, left) := takeDigits true rest
      (c :: digits, left)
    else ([], c :: rest)
  | [] => ([], [])

/-- The characters of a number without the blanks around it, with ASCII digits. -/
def numberBody (s : String) : List Char :=
  asciiDigits (Text.trim s).toList

/-- Splits off a sign. -/
def takeSign : List Char → Bool × List Char
  | '-' :: rest => (true, rest)
  | '+' :: rest => (false, rest)
  | s => (false, s)

/-- An integer in decimal digits. -/
def readInt? (s : String) : Option Int :=
  let (negative, body) := takeSign (numberBody s)
  match takeDigits false body with
  | (digits, []) =>
    if digits.isEmpty then none
    else some (if negative then -(digitsValue digits : Int) else (digitsValue digits : Int))
  | _ => none

/-- Reads an exponent behind its mark. -/
def takeExponent? (s : List Char) : Option Int :=
  let (negative, body) := takeSign s
  match takeDigits false body with
  | (digits, []) =>
    if digits.isEmpty then none
    else some (if negative then -(digitsValue digits : Int) else (digitsValue digits : Int))
  | _ => none

/-- The double nearest to `value * 10 ^ exponent`. Exponents far outside the range of doubles give zero
or infinity without a computation. -/
def scale (value : Nat) (exponent : Int) : Float :=
  let size : Int := exponent + (Nat.log2 value : Int)
  if value = 0 then 0
  else if 2000 < exponent then 1 / 0
  else if size < -2000 then 0
  else if 0 ≤ exponent then Float.ofScientific (value * Nat.pow 10 exponent.toNat) false 0
  else Float.ofScientific value true (-exponent).toNat

/-- A decimal number without its sign. -/
def readUnsigned? (s : List Char) : Option Float :=
  let (whole, rest) := takeDigits false s
  let (fraction, rest) := match rest with
    | '.' :: more => takeDigits false more
    | _ => ([], rest)
  if whole.isEmpty && fraction.isEmpty then none
  else
    let exponent := match rest with
      | [] => some 0
      | c :: more => if c == 'e' || c == 'E' then takeExponent? more else none
    exponent.map fun e => scale (digitsValue (whole ++ fraction)) (e - fraction.length)

/-- The names of the values that are no numbers, in lower case. -/
def readNamed? (s : List Char) : Option Float :=
  let name := String.ofList (s.map Char.toLower)
  if name == "inf" || name == "infinity" then some (1 / 0)
  else if name == "nan" then some (0 / 0)
  else none

/-- A double in decimal notation, or the name of a value that is no number. -/
def readFloat? (s : String) : Option Float :=
  let (negative, body) := takeSign (numberBody s)
  ((readUnsigned? body).or (readNamed? body)).map fun x => if negative then -x else x

end CodeAudit.Number
