import CodeAudit.Datum.Arithmetic

/-!
# Quantities and scalars

Scores are computed by the same formulas over different kinds of numbers: over doubles, over values from
outside, whose kind may not fit, and over exact numbers, where the laws of the formulas are stated.

## Main definitions

* `Quantity` — numbers with total operations.
* `clamp` — a number moved into the unit interval.
-/

namespace CodeAudit

/-- Numbers with total operations. -/
class Quantity (α : Type) where
  /-- The fraction with a numerator and a denominator. -/
  fraction : Int → Nat → α
  /-- The number for which a finite double stands. -/
  ofFloat : Float → α
  add : α → α → α
  sub : α → α → α
  mul : α → α → α
  div : α → α → α
  less : α → α → Bool
  equal : α → α → Bool
  text : α → String

/-- Doubles. -/
instance : Quantity Float where
  fraction n d := Number.ofInt n / Number.ofInt d
  ofFloat x := x
  add x y := x + y
  sub x y := x - y
  mul x y := x * y
  div x y := x / y
  less x y := x < y
  equal x y := x == y
  text x := Number.plain x

/-- Numbers with operations that may fail. -/
class Scalar (α : Type) where
  /-- An integer. -/
  whole : Int → α
  /-- The fraction with a numerator and a denominator. -/
  fraction : Int → Nat → α
  add : α → α → Except Fault α
  sub : α → α → Except Fault α
  mul : α → α → Except Fault α
  div : α → α → Except Fault α
  /-- Whether two numbers satisfy a sign of order. -/
  ordered : Datum.Sign → α → α → Except Fault Bool

/-- Whether two quantities satisfy a sign of order. -/
def Quantity.ordered {α : Type} [Quantity α] (sign : Datum.Sign) (x y : α) : Bool :=
  match sign with
  | .lt => less x y
  | .le => less x y || equal x y
  | .gt => less y x
  | .ge => less y x || equal x y

/-- Quantities fail only at a division by zero. -/
instance {α : Type} [Quantity α] : Scalar α where
  whole n := Quantity.fraction n 1
  fraction n d := Quantity.fraction n d
  add x y := .ok (Quantity.add x y)
  sub x y := .ok (Quantity.sub x y)
  mul x y := .ok (Quantity.mul x y)
  div x y := if Quantity.equal y (Quantity.fraction 0 1) then .error .divisionByZero else .ok (Quantity.div x y)
  ordered sign x y := .ok (Quantity.ordered sign x y)

/-- Values of any kind; fractions are doubles. -/
instance : Scalar Datum where
  whole n := .int n
  fraction n d := .float (Quantity.fraction n d)
  add := Datum.add
  sub := Datum.sub
  mul := Datum.mul
  div := Datum.div
  ordered := Datum.ordered

/-- A number moved into the unit interval. -/
def clamp {α : Type} [Scalar α] (x : α) : Except Fault α := do
  if ← Scalar.ordered .lt x (Scalar.whole 0) then return Scalar.fraction 0 1
  else if ← Scalar.ordered .gt x (Scalar.whole 1) then return Scalar.fraction 1 1
  else return x

end CodeAudit
