import CodeAudit.Text.Table

/-!
# Characters of identifiers

An identifier starts with a letter or an underscore and goes on with letters, digits and marks. Beyond
ASCII, the two classes are the Unicode properties `XID_Start` and `XID_Continue`.

## Main definitions

* `isNameStart`, `isNameContinue` — the two character classes.
* `isIdentifier` — whether a text is an identifier.
-/

namespace CodeAudit.Text

/-- The ranges of `XID_Start` beyond ASCII. -/
def nameStartTable : Table Nat := Table.ranges
  "aa b5 a c0-d6 8-f6 8-2c1 6-d1 e0-4 c e 370-4 6-7 b-d f 86 8-a c e-a1 3-f5 7-481 a-52f 31-56 9 60-88
   d0-ea f-f2 620-4a 6e-f 71-d3 5 e5-6 e-f fa-c f 710 2-2f 4d-a5 b1 ca-ea f4-5 a 800-15 a 24 8 40-58
   60-a 70-87 9-e a0-c9 904-39 d 50 8-61 71-80 5-c f-90 3-a8 a-b0 2 6-9 d ce dc-d f-e1 f0-1 c a05-a f-10
   3-28 a-30 2-3 5-6 8-9 59-c e 72-4 85-d f-91 3-a8 a-b0 2-3 5-9 d d0 e0-1 f9 b05-c f-10 3-28 a-30 2-3
   5-9 d 5c-d f-61 71 83 5-a e-90 2-5 9-a c e-f a3-4 8-a e-b9 d0 c05-c e-10 2-28 a-39 d 58-a d 60-1 80
   5-c e-90 2-a8 a-b3 5-9 d dd-e e0-1 f1-2 d04-c e-10 2-3a d 4e 54-6 f-61 7a-f 85-96 a-b1 3-b d c0-6
   e01-30 2 40-6 81-2 4 6-a c-a3 5 7-b0 2 d c0-4 6 dc-f f00 40-7 9-6c 88-c 1000-2a 3f 50-5 a-d 61 5-6
   e-70 5-81 e a0-c5 7 d d0-fa c-248 a-d 50-6 8 a-d 60-88 a-d 90-b0 2-5 8-e c0 2-5 8-d6 8-310 2-5 8-5a
   80-f a0-f5 8-d 401-66c f-7f 81-9a a0-ea e-f8 700-11 f-31 40-51 60-c e-70 80-b3 d7 c 820-78 80-a8 a
   b0-f5 900-1e 50-6d 70-4 80-ab b0-c9 a00-16 20-54 a7 b05-33 45-c 83-a0 e-f ba-e5 c00-23 4d-f 5a-7d
   80-8 90-ba d-f e9-c e-f3 5-6 a d00-bf e00-f15 8-d 20-45 8-d 50-7 9 b d f-7d 80-b4 6-c e c2-4 6-c d0-3
   6-b e0-c f2-4 6-c 2071 f 90-c 102 7 a-13 5 8-d 24 6 8 a-39 c-f 45-9 e 60-88 c00-e4 b-e f2-3 d00-25 7
   d 30-67 f 80-96 a0-6 8-e b0-6 8-e c0-6 8-e d0-6 8-e 3005-7 21-9 31-5 8-c 41-96 d-f a1-fa c-f 105-2f
   31-8e a0-bf f0-f 400-4dbf e00-a48c d0-fd 500-60c 10-f 2a-b 40-6e 7f-9d a0-ef 717-f 22-88 b-ca d0-1 3
   5-9 f2-801 3-5 7-a c-22 40-73 82-b3 f2-7 b d-e 90a-25 30-46 60-7c 84-b2 cf e0-4 6-f fa-e a00-28 40-2
   4-b 60-76 a e-af b1 5-6 9-d c0 2 db-d e0-a f2-4 b01-6 9-e 11-6 20-6 8-e 30-5a c-69 70-e2 c00-d7a3
   b0-c6 b-fb f900-a6d 70-d9 b00-6 13-7 d f-28 a-36 8-c e 40-1 3-4 6-b1 d3-c5d 64-d3d 50-8f 92-c7 f0-9
   e71 3 7 9 b d f-fc f21-3a 41-5a 66-9d a0-be c2-7 a-f d2-7 a-c 10000-b d-26 8-3a c-d f-4d 50-d 80-fa
   140-74 280-9c a0-d0 300-1f 2d-4a 50-75 80-9d a0-c3 8-f d1-5 400-9d b0-d3 8-fb 500-27 30-63 70-a c-8a
   c-92 4-5 7-a1 3-b1 3-9 b-c 600-736 40-55 60-7 80-5 7-b0 2-a 800-5 8 a-35 7-8 c f-55 60-76 80-9e e0-f2
   4-5 900-15 20-39 80-b7 e-f a00 10-3 5-7 9-35 60-7c 80-9c c0-7 9-e4 b00-35 40-55 60-72 80-91 c00-48
   80-b2 c0-f2 d00-23 e80-a9 b0-1 f00-1c 27 30-45 70-81 b0-c4 e0-f6 1003-37 71-2 5 83-af d0-e8 103-26 44
   7 50-72 6 83-b2 c1-4 da c 200-11 3-2b 80-6 8 a-d f-9d f-a8 b0-de 305-c f-10 3-28 a-30 2-3 5-9 d 50
   d-61 400-34 47-a 5f-61 80-af c4-5 7 580-ae d8-b 600-2f 44 80-aa b8 700-1a 40-6 800-2b a0-df ff-906 9
   c-13 5-6 8-2f 3f 41 a0-7 a-d0 e1 3 a00 b-32 a 50 c-89 9d b0-f8 c00-8 a-2e 40 72-8f d00-6 8-9 b-30 46
   60-5 7-8 a-89 98 ee0-f2 fb0 2000-399 400-6e 80-543 f90-f0 3000-42e 4400-646 6800-a38 40-5e 70-be
   d0-ed b00-2f 40-3 63-77 d-8f e40-7f f00-4a 50 93-f e0-1 3 7000-87f7 800-cd5 d00-8 aff0-3 5-b d-e
   b000-122 50-2 64-7 70-2fb c00-6a 70-c 80-8 90-9 d400-54 6-9c e-f a2 5-6 9-c e-b9 b d-c3 5-505 7-a
   d-14 6-c e-39 b-e 40-4 6 a-50 2-6a5 8-c0 2-da c-fa c-714 6-34 6-4e 50-6e 70-88 a-a8 a-c2 4-b f00-1e
   e100-2c 37-d 4e 290-ad c0-eb 7e0-6 8-b d-e f0-e 800-c4 900-43 b e00-3 5-1f 21-2 4 7 9-32 4-7 9 b 42 7
   9 b d-f 51-2 4 7 9 b d f 61-2 4 7-a c-72 4-7 9-c e 80-9 b-9b a1-3 5-9 b-bb 20000-a6df 700-b738 40-81d
   20-cea1 b0-ebe0 f800-a1d 30000-134a"

/-- The ranges beyond ASCII of `XID_Continue` that `XID_Start` does not have. -/
def nameTailTable : Table Nat := Table.ranges
  "b7 300-6f 87 483-7 591-bd f c1-2 4-5 7 610-a 4b-69 70 d6-c f-e4 7-8 a-d f0-9 711 30-4a a6-b0 c0-9
   eb-f3 d 816-9 b-23 5-7 9-d 59-b 98-f ca-e1 3-903 3a-c e-4f 51-7 62-3 6-f 81-3 bc e-c4 7-8 b-d d7 e2-3
   6-f fe a01-3 3c e-42 7-8 b-d 51 66-71 5 81-3 bc e-c5 7-9 b-d e2-3 6-f fa-f b01-3 3c e-44 7-8 b-d 55-7
   62-3 6-f 82 be-c2 6-8 a-d d7 e6-f c00-4 3c e-44 6-8 a-d 55-6 62-3 6-f 81-3 bc e-c4 6-8 a-d d5-6 e2-3
   6-f d00-3 3b-c e-44 6-8 a-d 57 62-3 6-f 81-3 ca f-d4 6 8-f e6-f f2-3 e31 3-a 47-e 50-9 b1 3-c c8-d
   d0-9 f18-9 20-9 35 7 9 e-f 71-84 6-7 d-97 9-bc c6 102b-3e 40-9 56-9 e-60 2-4 7-d 71-4 82-d f-9d 35d-f
   69-71 712-5 32-4 52-3 72-3 b4-d3 d e0-9 80b-d f-19 a9 920-b 30-b 46-f d0-a a17-b 55-e 60-7c f-89 90-9
   b0-d f-ce b00-4 34-44 50-9 6b-73 80-2 a1-d b0-9 e6-f3 c24-37 40-9 50-9 d0-2 4-e8 d f4 7-9 dc0-ff
   203f-40 54 d0-c e1 5-f0 cef-f1 d7f e0-ff 302a-f 99-a a620-9 6f 74-d 9e-f f0-1 802 6 b 23-7 c 80-1
   b4-c5 d0-9 e0-f1 f-909 26-d 47-53 80-3 b3-c0 d0-9 e5 f0-9 a29-36 43 c-d 50-9 7b-d b0 2-4 7-8 e-f c1
   eb-f f5-6 be3-a c-d f0-9 fb1e e00-f 20-f 33-4 4d-f f10-9 3f 9e-f 101fd 2e0 376-a 4a0-9 a01-3 5-6 c-f
   38-a f e5-6 d24-7 30-9 eab-c f46-50 82-5 1000-2 38-46 66-70 3-4 f-82 b0-a c2 f0-9 100-2 27-34 6-f
   45-6 73 80-2 b3-c0 9-c e-d9 22c-37 e df-ea f0-9 300-3 3b-c e-44 7-8 b-d 57 62-3 6-c 70-4 435-46 50-9
   e b0-c3 d0-9 5af-b5 8-c0 dc-d 630-40 50-9 ab-b7 c0-9 71d-2b 30-9 82c-3a e0-9 930-5 7-8 b-e 40 2-3
   50-9 d1-7 a-e0 4 a01-a 33-9 b-e 47 51-b 8a-99 c2f-36 8-f 50-9 92-a7 9-b6 d31-6 a c-d f-45 7 50-9 8a-e
   90-1 3-7 a0-9 ef3-6 6a60-9 c0-9 f0-4 b30-6 50-9 f4f 51-87 f-92 e4 f0-1 bc9d-e cf00-2d 30-46 d165-9
   d-72 b-82 5-b aa-d 242-4 7ce-ff a00-36 b-6c 75 84 9b-f a1-f e000-6 8-18 b-21 3-4 6-a 130-6 40-9 2ae
   ec-f9 8d0-6 944-a 50-9 fbf0-9 e0100-ef"

/-- A character that may start an identifier. -/
def isNameStart (c : Char) : Bool :=
  if c.toNat < 128 then c.isAlpha || c == '_' else nameStartTable.covers c.toNat

/-- A character that may stand in an identifier after its first. -/
def isNameContinue (c : Char) : Bool :=
  if c.toNat < 128 then c.isAlphanum || c == '_'
  else nameStartTable.covers c.toNat || nameTailTable.covers c.toNat

/-- An identifier: a start character, then continuing characters. -/
def isIdentifier : List Char → Bool
  | [] => false
  | c :: rest => isNameStart c && rest.all isNameContinue

end CodeAudit.Text
