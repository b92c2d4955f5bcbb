import CodeAudit.Text.Identifier

/-!
# Printable characters

A character is printable unless it is a control, a format character, a separator other than the blank,
for private use, or unassigned.
-/

namespace CodeAudit.Text

/-- The printable ranges beyond ASCII, the characters of identifiers apart. -/
def printableTable : Table Nat := Table.ranges
  "a1-9 b-c e-b4 6 8-9 b-f d7 f7 2c2-5 d2-f e5-b d f-ff 375 a e 84-5 f6 482 8-9 55a-f 89-a d-f be c0 3 6
   f3-4 606-f 1b d-f 6a-d d4 e e9 fd-e 700-d f6-9 e-f 830-e 5e 88 964-5 70 f2-b d a76 f0-1 b70 2-7 f0-a
   c77-f 84 d4f 58-e 70-9 f4 e3f 4f 5a-b f01-17 a-f 2a-34 6 8 a-d 85 be-c5 7-c e-da 104a-f 9e-f fb 360-8
   72-c 90-9 400 66d-e 9b-c eb-d 735-6 d4-6 8-b f0-9 800-a 940 4-5 de-ff a1e-f a0-6 8-d be b5a-6a 74-e
   fc-f c3b-f 7e-f c0-7 d3 fbd f-c1 d-f dd-f ed-f fd-e 2010-27 30-e 41-53 5-e 70 4-e 80-e a0-c0 dd-e0
   2-4 100-1 3-6 8-9 14 6-7 e-23 5 7 9 3a-b 40-4 a-d f-5f 89-b 90-426 40-a 60-b73 6-95 7-ff ce5-a f9-f
   d70 e00-5d 80-99 b-f3 f00-d5 f0-b 3001-4 8-20 30 6-7 d-f 9b-c a0 fb 190-f c0-e3 200-1e 20-3ff 4dc0-ff
   a490-c6 fe-f 60d-f 70-3 e f2-7 700-16 20-1 89-a 828-b 30-9 74-7 ce-f f8-a c 92e-f 5f c1-d de-f a5c-f
   77-9 de-f f0-1 b5b 6a-b eb fb29 b2-c2 c5e-63 d3e-4f cf fa-f e10-9 30-2 5-4c 50-2 4-66 8-b 70 2 4 6 8
   a c e f01-f 1a-20 3b-e 40 5b-65 e0-6 8-e fc-d 10100-2 7-33 7-f 75-8e 90-c a0 d0-fc 2e1-fb 320-3 9f d0
   56f 857-f 77-f a7-f fb-f 916-b f 3f bc-d c0-f d2-ff a40-8 50-8 7d-f 9d-f c8 eb-f6 b39-f 58-f 78-f
   99-c a9-f cfa-f e60-7e ad f1d-26 51-9 86-9 c5-b 1047-d 52-65 bb-c e-c1 140-3 74-5 c5-8 d db d-f e1-f4
   238-d a9 44b-f 5a-b d c6 5c1-d7 641-3 60-c b9 73a-f 83b ea-f2 944-6 e2 a3f-46 9a-c e-a2 c41-5 5a-6c
   70-1 ef7-8 fc0-f1 f 2470-4 ff1-2 6a6e-f f5 b37-f 44-5 5b-61 e80-9a fe2 bc9c f cf50-c3 d000-f5 100-26
   9-64 a-c 83-4 c-a9 e-ea 200-41 5 e0-f3 300-56 60-78 6c1 db fb 715 35 4f 6f 89 a9 c3 800-9ff a37-a
   6d-74 6-83 5-b e14f 2ff 8c7-f 95e-f c71-b4 d01-3d ef0-1 f000-2b 30-93 a0-e b1-f c1-f d1-f5 100-ad
   e6-202 10-3b 40-8 50-1 60-5 300-6d7 d-ec f0-c 700-73 80-d8 e0-b f0 800-b 10-47 50-9 60-87 90-ad b0-1
   900-a53 60-d 70-4 8-c 80-6 90-ac b0-a c0-5 d0-9 e0-7 f0-6 b00-92 4-ca"

/-- A character that a quoted text shows as it is. -/
def isPrintable (c : Char) : Bool :=
  if c.toNat < 128 then 32 ≤ c.toNat && c.toNat < 127
  else isNameContinue c || printableTable.covers c.toNat

end CodeAudit.Text
