import CodeAudit.Number.Dyadic

/-!
# Decimal text of numbers

A number is written with the fewest decimal digits that read back to it; of several such decimals the one
nearest to the number is taken. How the digits are laid out is a matter of a `Layout`.

## Main definitions

* `Digits` — decimal digits with the place of the point.
* `Digits.shortest` — the fewest digits that read back.
-/

namespace CodeAudit.Number

/-- The number `0.d₁d₂… * 10 ^ point`, where the digits are those of `value`. -/
structure Digits where
  value : Nat
  point : Int
deriving DecidableEq

/-- The decimal digits of a natural number. -/
def decimal (n : Nat) : List Char :=
  Nat.toDigits 10 n

/-- The digits of an integer with its sign. -/
def decimalInt (n : Int) : String :=
  if n < 0 then String.ofList ('-' :: decimal n.natAbs) else String.ofList (decimal n.natAbs)

namespace Digits

/-- The interval of reals that round to a double, in quarters of its last place: the value itself, the
lower end and the upper end. Below a power of two the numbers lie closer. -/
def interval (m : Nat) (q : Int) : Nat × Nat × Nat :=
  if m = leadingBit && -1074 < q then (4 * m, 4 * m - 1, 4 * m + 2) else (4 * m, 4 * m - 2, 4 * m + 2)

/-- The least `e` with `n < 10 ^ e * d`, found from a lower bound in at most the given number of steps. -/
def pointFrom : Nat → Int → Nat → Nat → Int
  | 0, e, _, _ => e
  | steps + 1, e, n, d =>
    let below := if 0 ≤ e then n < Nat.pow 10 e.toNat * d else n * Nat.pow 10 (-e).toNat < d
    if below then e else pointFrom steps (e + 1) n d

/-- A bound from below for the decimal exponent of `m * 2 ^ q`. -/
def pointBound (m : Nat) (q : Int) : Int :=
  ((q + (Nat.log2 m : Int)) * 30103).fdiv 100000 - 1

/-- Tries the two neighbours of a value on a decimal grid: the multiples of `10 ^ grid` on both sides. Of
two that round to the value the nearer is taken, and of two equally near ones the even. -/
def onGrid? (m : Nat) (q : Int) (grid : Int) : Option Nat :=
  let (value, low, high) := interval m q
  let closed := m % 2 = 0
  -- Everything is scaled by `up`, so that the grid has integer width `width`.
  let up := (if 2 ≤ q then Nat.pow 2 (q - 2).toNat else 1) * (if grid < 0 then Nat.pow 10 (-grid).toNat else 1)
  let width := (if q < 2 then Nat.pow 2 (2 - q).toNat else 1) * (if 0 ≤ grid then Nat.pow 10 grid.toNat else 1)
  let below := value * up / width
  let inside (k : Nat) : Bool :=
    if closed then low * up ≤ k * width && k * width ≤ high * up
    else low * up < k * width && k * width < high * up
  let lowDistance := value * up - below * width
  let highDistance := (below + 1) * width - value * up
  match inside below, inside (below + 1) with
  | true, true =>
    some (if lowDistance < highDistance || (lowDistance = highDistance && below % 2 = 0) then below
      else below + 1)
  | true, false => some below
  | false, true => some (below + 1)
  | false, false => none

/-- The first of the grids from `count` digits on that has a decimal which reads back. -/
def shortestFrom (m : Nat) (q point : Int) : Nat → Nat → Digits
  | 0, count => ⟨0, point - count⟩
  | steps + 1, count =>
    match onGrid? m q (point - count) with
    | some value => if value = 0 then shortestFrom m q point steps (count + 1) else ⟨value, point - count⟩
    | none => shortestFrom m q point steps (count + 1)

/-- Drops zeros at the end of a number; `point` is the exponent of the last digit. -/
def dropZeros : Nat → Nat → Int → Digits
  | 0, value, point => ⟨value, point⟩
  | steps + 1, value, point =>
    if value ≠ 0 && value % 10 = 0 then dropZeros steps (value / 10) (point + 1) else ⟨value, point⟩

/-- **The fewest digits that read back** to `m * 2 ^ q`; seventeen always do. -/
def shortest (m : Nat) (q : Int) : Digits :=
  if m = 0 then ⟨0, 1⟩
  else
    let (n, d) := quotient m q
    let point := pointFrom 8 (pointBound m q) n d
    let raw := shortestFrom m q point 18 1
    let trimmed := dropZeros 20 raw.value raw.point
    ⟨trimmed.value, trimmed.point + (decimal trimmed.value).length⟩

end Digits

/-! ## Layout -/

/-- How digits are laid out. -/
structure Layout where
  /-- The exponents of the first digit that are written positionally: from here … -/
  least : Int
  /-- … to here. -/
  greatest : Int
  /-- The mark before an exponent. -/
  mark : String
  /-- Whether a number without a fraction gets one in exponent form. -/
  pointInExponent : Bool
  /-- The texts of the values that are no numbers: infinity, its negative, and not-a-number. -/
  infinity : String
  negativeInfinity : String
  nan : String

/-- Digits with a point among or behind them, or with zeros before them. -/
def positional (digits : List Char) (point : Int) : List Char :=
  if point ≤ 0 then '0' :: '.' :: List.replicate (-point).toNat '0' ++ digits
  else if (digits.length : Int) ≤ point then
    digits ++ List.replicate (point.toNat - digits.length) '0' ++ ['.', '0']
  else digits.take point.toNat ++ '.' :: digits.drop point.toNat

/-- An exponent with its sign and at least two digits. -/
def exponentText (e : Int) : List Char :=
  let digits := decimal e.natAbs
  (if e < 0 then '-' else '+') :: (if digits.length < 2 then '0' :: digits else digits)

/-- The first digit, the others behind a point, and the exponent. -/
def scientific (layout : Layout) (digits : List Char) (point : Int) : List Char :=
  let mantissa := match digits with
    | [] => ['0']
    | [d] => if layout.pointInExponent then [d, '.', '0'] else [d]
    | d :: rest => d :: '.' :: rest
  mantissa ++ layout.mark.toList ++ exponentText (point - 1)

/-- The text of a double. -/
def Layout.render (layout : Layout) (x : Float) : String :=
  match Form.ofFloat x with
  | .nan => layout.nan
  | .infinite negative => if negative then layout.negativeInfinity else layout.infinity
  | .finite negative m q =>
    let shortest := Digits.shortest m q
    let digits := decimal shortest.value
    let body :=
      if layout.least ≤ shortest.point - 1 && shortest.point - 1 ≤ layout.greatest then
        positional digits shortest.point
      else scientific layout digits shortest.point
    String.ofList (if negative then '-' :: body else body)

/-- Plain numbers are positional from `0.0001` up to sixteen digits, and have a signed exponent of at
least two digits otherwise. -/
def plainLayout : Layout where
  least := -4
  greatest := 15
  mark := "e"
  pointInExponent := false
  infinity := "inf"
  negativeInfinity := "-inf"
  nan := "nan"

/-- The text of a double in plain layout. -/
def plain (x : Float) : String :=
  plainLayout.render x

/-! ## Fixed places -/

/-- A quotient rounded to the nearest integer, a half to the even one. -/
def roundDiv (n d : Nat) : Nat :=
  let k := n / d
  let twice := 2 * (n % d)
  if twice < d then k else if d < twice then k + 1 else if k % 2 = 0 then k else k + 1

/-- A number with a given count of decimal places, which is at least one. -/
def fixed (places : Nat) (x : Float) : String :=
  match Form.ofFloat x with
  | .nan => "nan"
  | .infinite negative => if negative then "-inf" else "inf"
  | .finite negative m q =>
    let (n, d) := quotient m q
    let digits := decimal (roundDiv (n * Nat.pow 10 places) d)
    let padded := List.replicate (places + 1 - digits.length) '0' ++ digits
    let body := padded.take (padded.length - places) ++ '.' :: padded.drop (padded.length - places)
    String.ofList (if negative then '-' :: body else body)

end CodeAudit.Number
