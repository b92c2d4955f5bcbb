/-!
# Binary floating-point numbers as exact values

A finite number in double precision is `m * 2 ^ q` with a sign. All text forms of numbers are computed on
this exact value.

## Main definitions

* `Form`, `Form.ofFloat` — a double taken apart.
* `ratio` — the double nearest to a quotient of integers.
-/

namespace CodeAudit.Number

/-- A double taken apart. -/
inductive Form
  | nan
  | infinite (negative : Bool)
  | finite (negative : Bool) (m : Nat) (q : Int)
deriving DecidableEq

/-- The bit that stands before the fraction of a normal number, which is not stored: the fifty-second power
of two. -/
def leadingBit : Nat := 0x10000000000000

/-- Takes a double apart. Subnormal numbers have the least exponent. -/
def Form.ofFloat (x : Float) : Form :=
  let bits := x.toBits.toNat
  let negative := 0x8000000000000000 ≤ bits
  let exponent : Nat := bits / leadingBit % 0x800
  let fraction := bits % leadingBit
  if exponent = 2047 then
    if fraction = 0 then .infinite negative else .nan
  else if exponent = 0 then .finite negative fraction (-1074)
  else .finite negative (leadingBit + fraction) ((exponent : Int) - 1075)

/-- The value of a finite form as a quotient of naturals, without the sign. -/
def quotient (m : Nat) (q : Int) : Nat × Nat :=
  if 0 ≤ q then (m * Nat.pow 2 q.toNat, 1) else (m, Nat.pow 2 (-q).toNat)

/-- Why a double has no integer part. -/
inductive NoInteger
  | nan
  | infinite

/-- The integer part of a double, cut toward zero. -/
def truncate (x : Float) : Except NoInteger Int :=
  match Form.ofFloat x with
  | .nan => .error .nan
  | .infinite _ => .error .infinite
  | .finite negative m q =>
    let (n, d) := quotient m q
    .ok (if negative then -((n / d : Nat) : Int) else ((n / d : Nat) : Int))

/-- Compares an integer with a finite double exactly. -/
def compareFinite (n : Int) (negative : Bool) (m : Nat) (q : Int) : Ordering :=
  let (a, d) := quotient m q
  compare (n * d) (if negative then -(a : Int) else (a : Int))

/-- Compares an integer with a double exactly; nothing is comparable with not-a-number. -/
def compareInt? (n : Int) (x : Float) : Option Ordering :=
  match Form.ofFloat x with
  | .nan => none
  | .infinite negative => some (if negative then .gt else .lt)
  | .finite negative m q => some (compareFinite n negative m q)

/-- Compares two doubles. -/
def compareFloat? (x y : Float) : Option Ordering :=
  if x < y then some .lt else if y < x then some .gt else if x == y then some .eq else none

/-- The double nearest to an integer, or infinity if it is too great. -/
def ofInt (n : Int) : Float :=
  let x := Float.ofScientific n.natAbs false 0
  if n < 0 then -x else x

/-- The double nearest to a quotient of naturals, however great these are. -/
def ratio (a b : Nat) : Float :=
  if h : 0 < a ∧ 0 < b then
    ⟨Float.Model.pack (.div .binary64 (.finite .positive a 0 h.1) (.finite .positive b 0 h.2))⟩
  else 0

end CodeAudit.Number
