import CodeAudit.Datum.Basic
import CodeAudit.Number.Reading
import CodeAudit.Sequence

/-!
# Arithmetic on data of unknown kind

## Main definitions

* `Datum.toInt`, `Datum.toFloat` — conversion to a number.
* `Datum.less`, `Datum.items`, `Datum.length` — order, iteration and length.
-/

namespace CodeAudit.Datum

/-! ## Conversion -/

/-- An integer as a double; it may be too great for one. -/
def intToFloat (n : Int) : Except Fault Float :=
  let x := Number.ofInt n
  if x.isInf then .error .integerTooGreat else .ok x

/-- A double cut to an integer. -/
def floatToInt (x : Float) : Except Fault Int :=
  match Number.truncate x with
  | .ok n => .ok n
  | .error .nan => .error .nanInteger
  | .error .infinite => .error .infiniteInteger

/-- A value as an integer: numbers are cut, texts are read. -/
def toInt : Datum → Except Fault Int
  | bool b => .ok (if b then 1 else 0)
  | int n => .ok n
  | float x => floatToInt x
  | text s =>
    match Number.readInt? s with
    | some n => .ok n
    | none => .error (.badInteger (Text.quoted s))
  | d => .error (.noInteger d.kind)

/-- A value as a double: integers are rounded, texts are read. -/
def toFloat : Datum → Except Fault Float
  | bool b => .ok (if b then 1 else 0)
  | int n => intToFloat n
  | float x => .ok x
  | text s =>
    match Number.readFloat? s with
    | some x => .ok x
    | none => .error (.badFloat (Text.quoted s))
  | d => .error (.noFloat d.kind)

/-- A value as an integer by way of a double. -/
def toIntViaFloat (d : Datum) : Except Fault Int :=
  d.toFloat.bind floatToInt

/-- A value as a count: only integers and truth values are counts. -/
def toIndex : Datum → Except Fault Int
  | bool b => .ok (if b then 1 else 0)
  | int n => .ok n
  | d => .error (.notIndex d.kind)

/-! ## Operators -/

/-- A number as a double. -/
def Numeric.toFloat : Numeric → Except Fault Float
  | .int n => intToFloat n
  | .float x => .ok x

/-- Applies an operator on numbers: two integers give an integer, else doubles are used. -/
def arithmetic (onInt : Int → Int → Int) (onFloat : Float → Float → Float) (a b : Numeric) :
    Except Fault Datum :=
  match a, b with
  | .int m, .int n => .ok (int (onInt m n))
  | a, b => a.toFloat.bind fun x => b.toFloat.map fun y => float (onFloat x y)

/-- Sum of numbers, or one sequence behind another. -/
def add (a b : Datum) : Except Fault Datum :=
  match a, b with
  | text s, text t => .ok (text (s ++ t))
  | text _, b => .error (.concatenation "str" b.kind)
  | list xs, list ys => .ok (list (xs ++ ys))
  | list _, b => .error (.concatenation "list" b.kind)
  | tuple xs, tuple ys => .ok (tuple (xs ++ ys))
  | tuple _, b => .error (.concatenation "tuple" b.kind)
  | a, b =>
    match a.numeric?, b.numeric? with
    | some m, some n => arithmetic (· + ·) (· + ·) m n
    | _, _ => .error (.operands "+" a.kind b.kind)

/-- Difference of numbers. -/
def sub (a b : Datum) : Except Fault Datum :=
  match a.numeric?, b.numeric? with
  | some m, some n => arithmetic (· - ·) (· - ·) m n
  | _, _ => .error (.operands "-" a.kind b.kind)

/-- A sequence repeated; a negative count gives the empty one. -/
def replicate? (count : Int) : Datum → Option Datum
  | text s => some (text (String.join (List.replicate count.toNat s)))
  | list xs => some (list (List.replicate count.toNat xs).flatten)
  | tuple xs => some (tuple (List.replicate count.toNat xs).flatten)
  | _ => none

/-- Whether a value is a sequence. -/
def isSequence : Datum → Bool
  | text _ | list _ | tuple _ => true
  | _ => false

/-- Product of numbers, or a sequence repeated. -/
def mul (a b : Datum) : Except Fault Datum :=
  match a.numeric?, b.numeric? with
  | some m, some n => arithmetic (· * ·) (· * ·) m n
  | _, _ =>
    if a.isSequence then
      match b.toIndex with
      | .ok n => (a.replicate? n).elim (.error (.repetition b.kind)) .ok
      | .error _ => .error (.repetition b.kind)
    else if b.isSequence then
      match a.toIndex with
      | .ok n => (b.replicate? n).elim (.error (.repetition a.kind)) .ok
      | .error _ => .error (.repetition a.kind)
    else .error (.operands "*" a.kind b.kind)

/-- Quotient of numbers as doubles. -/
def div (a b : Datum) : Except Fault Datum :=
  match a.numeric?, b.numeric? with
  | some m, some n =>
    m.toFloat.bind fun x => n.toFloat.bind fun y =>
      if y == 0 then .error .divisionByZero else .ok (float (x / y))
  | _, _ => .error (.operands "/" a.kind b.kind)

/-! ## Order -/

/-- The signs of order. -/
inductive Sign
  | lt
  | le
  | gt
  | ge
deriving DecidableEq

/-- How a sign is written. -/
def Sign.text : Sign → String
  | .lt => "<"
  | .le => "<="
  | .gt => ">"
  | .ge => ">="

/-- Whether an outcome of a comparison satisfies a sign. -/
def Sign.holds : Sign → Ordering → Bool
  | .lt, o => o == .lt
  | .le, o => o != .gt
  | .gt, o => o == .gt
  | .ge, o => o != .lt

/-- Texts in the order of their code points. -/
def compareText (s t : String) : Ordering :=
  if s < t then .lt else if t < s then .gt else .eq

/-- Whether two values satisfy a sign. Numbers have an order, texts have one, and lists are compared at
the first place where they differ. -/
def ordered (sign : Sign) (a b : Datum) : Except Fault Bool :=
  match a, b with
  | .text s, .text t => .ok (sign.holds (compareText s t))
  | .list xs, .list ys => orderedItems sign xs ys
  | .tuple xs, .tuple ys => orderedItems sign xs ys
  | a, b =>
    match a.numeric?, b.numeric? with
    | some m, some n => .ok ((m.compare? n).elim false sign.holds)
    | _, _ => .error (.unordered sign.text a.kind b.kind)
where
  /-- Compares item by item. -/
  orderedItems (sign : Sign) : List Datum → List Datum → Except Fault Bool
    | [], [] => .ok (sign.holds .eq)
    | [], _ :: _ => .ok (sign.holds .lt)
    | _ :: _, [] => .ok (sign.holds .gt)
    | x :: xs, y :: ys => if equals x y then orderedItems sign xs ys else ordered sign x y

/-- Whether a value is below another. -/
def less (a b : Datum) : Except Fault Bool :=
  ordered .lt a b

/-! ## Items -/

/-- The items of a value: those of a list, the keys of a dictionary, the characters of a text. -/
def items : Datum → Except Fault (List Datum)
  | list xs => .ok xs
  | tuple xs => .ok xs
  | dict entries => .ok (entries.map (·.1))
  | text s => .ok (s.toList.map fun c => text (String.singleton c))
  | d => .error (.notIterable d.kind)

/-- The number of items of a value. -/
def length : Datum → Except Fault Nat
  | list xs => .ok xs.length
  | tuple xs => .ok xs.length
  | dict entries => .ok entries.length
  | text s => .ok s.length
  | d => .error (.noLength d.kind)

/-- The first of some items: a negative count leaves out as many at the end, and no count takes all. -/
def firstOf {α : Type} (xs : List α) (count : Datum) : Except Fault (List α) :=
  match count with
  | null => .ok xs
  | bool b => .ok (Sequence.slice xs 0 (if b then 1 else 0))
  | int n => .ok (Sequence.slice xs 0 n)
  | _ => .error .badSlice

/-- The entries of a dictionary, which is asked for them by the given name. -/
def entriesAs (name : String) : Datum → Except Fault (List (Datum × Datum))
  | dict entries => .ok entries
  | d => .error (.noAttribute d.kind name)

/-- A value asked by key with a default; only dictionaries can be asked. -/
def ask (d : Datum) (key : String) (default : Datum) : Except Fault Datum := do
  return (lookup (.text key) (← d.entriesAs "get")).getD default

/-- Whether a value holds a text: as a key, as an item, or as a part. -/
def holds (d : Datum) (key : String) : Except Fault Bool :=
  match d with
  | dict entries => .ok (lookup (.text key) entries).isSome
  | list items => .ok (items.any (· == .text key))
  | tuple items => .ok (items.any (· == .text key))
  | text s => .ok (Text.contains s key)
  | d => .error (.notContainer d.kind)

/-- The value at a key. -/
def at_ (d : Datum) (key : String) : Except Fault Datum :=
  match d with
  | dict entries => (lookup (.text key) entries).elim (.error (.missingKey (Text.quoted key))) .ok
  | list _ => .error .listIndex
  | text _ => .error .textIndex
  | d => .error (.notSubscriptable d.kind)

end CodeAudit.Datum
