import CodeAudit.Text.Digit
import CodeAudit.Text.Identifier

/-!
# Word characters

A word character is a letter, a character with a numeric value, or an underscore.
-/

namespace CodeAudit.Text

/-- The characters that start identifiers and are neither letters nor numbers. -/
def symbolTable : Table Nat := Table.ranges "1885-6 2118 2e"

/-- The letters and numbers beyond ASCII that neither start identifiers nor are decimal digits. -/
def wordTable : Table Nat := Table.ranges
  "b2-3 9 c-e 37a 9f4-9 b72-7 f0-2 c78-e d58-e 70-8 e33 b3 f2a-33 1369-7c 7f0-9 9da 2070 4-9 80-9 150-f
   89 460-9b ea-ff 776-93 cfd e2f 3192-5 220-9 48-f 51-f 80-9 b1-f a830-5 fc5e-63 dfa-b e70 2 4 6 8 a c
   e f9e-f 10107-33 75-8 8a-b 2e1-fb 320-3 858-f 79-f a7-f fb-f 916-b bc-d c0-f d2-ff a40-8 7d-e 9d-f
   eb-f b58-f 78-f a9-f cfa-f e60-7e f1d-26 51-4 c5-b 1052-65 1e1-f4 73a-b 8ea-f2 c5a-6c fc0-d4 6b5b-61
   e80-96 d2e0-f3 360-78 e8c7-f c71-ab d-f b1-4 d01-2d f-3d f100-c"

/-- A letter, a character with a numeric value, or an underscore. -/
def isWordChar (c : Char) : Bool :=
  if c.toNat < 128 then c.isAlphanum || c == '_'
  else (nameStartTable.covers c.toNat && !symbolTable.covers c.toNat) || digitTable.covers c.toNat ||
    wordTable.covers c.toNat

end CodeAudit.Text
