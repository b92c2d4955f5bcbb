import CodeAudit.Text.Table

/-!
# Decimal digits

Every script's decimal digits stand in runs of ten, from zero to nine, so a digit's value is its place in
the run.
-/

namespace CodeAudit.Text

/-- The runs of decimal digits beyond ASCII. -/
def digitTable : Table Nat := Table.ranges
  "660-9 f0-9 7c0-9 966-f e6-f a66-f e6-f b66-f e6-f c66-f e6-f d66-f e6-f e50-9 d0-9 f20-9 1040-9 90-9
   7e0-9 810-9 946-f d0-9 a80-9 90-9 b50-9 b0-9 c40-9 50-9 a620-9 8d0-9 900-9 d0-9 f0-9 a50-9 bf0-9
   ff10-9 104a0-9 d30-9 1066-f f0-9 136-f d0-9 2f0-9 450-9 d0-9 650-9 c0-9 730-9 8e0-9 950-9 c50-9 d50-9
   a0-9 6a60-9 c0-9 b50-9 d7ce-ff e140-9 2f0-9 950-9 fbf0-9"

/-- The value of a decimal digit of any script. -/
def digitValue? (c : Char) : Option Nat :=
  if c.toNat < 128 then
    if c.isDigit then some (c.toNat - '0'.toNat) else none
  else
    match digitTable.floor? c.toNat with
    | some (first, last) => if c.toNat ≤ last then some ((c.toNat - first) % 10) else none
    | none => none

/-- A decimal digit of any script. -/
def isDecimal (c : Char) : Bool :=
  (digitValue? c).isSome

end CodeAudit.Text
