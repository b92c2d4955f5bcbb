import CodeAudit.Text.Table

/-!
# Lower case and capitals

Case mappings are those of the Unicode standard, including the ones that give several characters. A
capital sigma becomes the final sigma at the end of a word.

## Main definitions

* `lower` — a text in lower case.
* `capitalize` — the first character as in a title, the rest in lower case.
-/

namespace CodeAudit.Text

/-- Lower case beyond ASCII, where one letter becomes one other; the capital sigma is left to `lowerSigma`. The
items stand apart, so that each can be looked at by itself. -/
def lowerRuns : Table Run := (Table.runsAfter [] (List.map String.toList
  ["c0-d6=e0", "8-e=f8", "100-2e/2=101", "32-6/2=133", "9-47/2=13a", "a-76/2=14b", "8=ff", "9-d/2=17a", "81=253",
    "2-4/2=183", "6=254", "7=188", "9-a=256", "b=18c", "e=1dd", "f=259", "90=25b", "1=192", "3=260", "4=263",
    "6=269", "7=268", "8=199", "c=26f", "d=272", "f=275", "a0-4/2=1a1", "6=280", "7=1a8", "9=283", "c=1ad", "e=288",
    "f=1b0", "b1-2=28a", "3-5/2=1b4", "7=292", "8=1b9", "c=1bd", "c4=1c6", "5=1c6", "7=1c9", "8=1c9", "a=1cc",
    "b-db/2=1cc", "e-ee/2=1df", "f1=1f3", "2-4/2=1f3", "6=195", "7=1bf", "8-21e/2=1f9", "20=19e", "2-32/2=223",
    "a=2c65", "b=23c", "d=19a", "e=2c66", "41=242", "3=180", "4=289", "5=28c", "6-e/2=247", "370-2/2=371", "6=377",
    "f=3f3", "86=3ac", "8-a=3ad", "c=3cc", "e-f=3cd", "91-a1=3b1", "4-b=3c4", "cf=3d7", "d8-ee/2=3d9", "f4=3b8",
    "7=3f8", "9=3f2", "a=3fb", "d-f=37b", "400-f=450", "10-2f=430", "60-80/2=461", "a-be/2=48b", "c0=4cf",
    "1-d/2=4c2", "d0-52e/2=4d1", "31-56=561", "10a0-c5=2d00", "7=2d27", "d=2d2d", "3a0-ef=ab70", "f0-5=13f8",
    "c90-ba=10d0", "d-f=10fd", "e00-94/2=1e01", "e=df", "a0-fe/2=1ea1", "f08-f=1f00", "18-d=1f10", "28-f=1f20",
    "38-f=1f30", "48-d=1f40", "59-f/2=1f51", "68-f=1f60", "88-f=1f80", "98-f=1f90", "a8-f=1fa0", "b8-9=1fb0",
    "a-b=1f70", "c=1fb3", "c8-b=1f72", "c=1fc3", "d8-9=1fd0", "a-b=1f76", "e8-9=1fe0", "a-b=1f7a", "c=1fe5",
    "f8-9=1f78", "a-b=1f7c", "c=1ff3", "2126=3c9", "a=6b", "b=e5", "32=214e", "60-f=2170", "83=2184", "4b6-cf=24d0",
    "c00-2f=2c30", "60=2c61", "2=26b", "3=1d7d", "4=27d", "7-b/2=2c68", "d=251", "e=271", "f=250", "70=252",
    "2=2c73", "5=2c76", "e-f=23f", "80-e2/2=2c81", "b-d/2=2cec", "f2=2cf3", "a640-6c/2=a641", "80-9a/2=a681",
    "722-e/2=a723", "32-6e/2=a733", "79-b/2=a77a", "d=1d79", "e-86/2=a77f", "b=a78c", "d=265", "90-2/2=a791",
    "6-a8/2=a797", "a=266", "b=25c", "c=261", "d=26c", "e=26a", "b0=29e", "1=287", "2=29d", "3=ab53", "4-c2/2=a7b5",
    "4=a794", "5=282", "6=1d8e", "7-9/2=a7c8", "d0=a7d1", "6-8/2=a7d7", "f5=a7f6", "ff21-3a=ff41", "10400-27=10428",
    "b0-d3=104d8", "570-a=10597", "c-8a=105a3", "c-92=105b3", "4-5=105bb", "c80-b2=10cc0", "18a0-bf=118c0",
    "6e40-5f=16e60", "e900-21=1e922"])).toArray

/-- Title case beyond ASCII, where one letter becomes one other. -/
def titleRuns : Table Run := Table.runs
  "b5=39c e0-f6=c0 8-e=d8 f=178 101-2f/2=100 31=49 3-7/2=132 a-48/2=139 b-77/2=14a a-e/2=179 f=53 80=243
   3-5/2=182 8=187 c=18b 92=191 5=1f6 9=198 a=23d e=220 a1-5/2=1a0 8=1a7 d=1ac b0=1af 4-6/2=1b3 9=1b8
   d=1bc f=1f7 c4=1c5 6=1c5 7=1c8 9=1c8 a=1cb c-dc/2=1cb d=18e f-ef/2=1de f1=1f2 3-5/2=1f2 9-21f/2=1f8
   23-33/2=222 c=23b f-40=2c7e 2=241 7-f/2=246 50=2c6f 1=2c6d 2=2c70 3=181 4=186 6-7=189 9=18f b=190
   c=a7ab 60=193 1=a7ac 3=194 5=a78d 6=a7aa 8=197 9=196 a=a7ae b=2c62 c=a7ad f=19c 71=2c6e 2=19d 5=19f
   d=2c64 80=1a6 2=a7c5 3=1a9 7=a7b1 8=1ae 9=244 a-b=1b1 c=245 92=1b7 d=a7b2 e=a7b0 345=399 71-3/2=370
   7=376 b-d=3fd ac=386 d-f=388 b1-c1=391 2=3a3 3-b=3a3 c=38c d-e=38e d0=392 1=398 5=3a6 6=3a0 7=3cf
   9-ef/2=3d8 f0=39a 1=3a1 2=3f9 3=37f 5=395 8=3f7 b=3fa 430-4f=410 50-f=400 61-81/2=460 b-bf/2=48a
   c2-e/2=4c1 f=4c0 d1-52f/2=4d0 61-86=531 13f8-d=13f0 c80=412 1=414 2=41e 3-4=421 5=422 6=42a 7=462
   8=a64a d79=a77d d=2c63 8e=a7c6 e01-95/2=1e00 b=1e60 a1-ff/2=1ea0 f00-7=1f08 10-5=1f18 20-7=1f28
   30-7=1f38 40-5=1f48 51-7/2=1f59 60-7=1f68 70-1=1fba 2-5=1fc8 6-7=1fda 8-9=1ff8 a-b=1fea c-d=1ffa
   80-7=1f88 90-7=1f98 a0-7=1fa8 b0-1=1fb8 3=1fbc e=399 c3=1fcc d0-1=1fd8 e0-1=1fe8 5=1fec f3=1ffc
   214e=2132 70-f=2160 84=2183 4d0-e9=24b6 c30-5f=2c00 61=2c60 5=23a 6=23e 8-c/2=2c67 73=2c72 6=2c75
   81-e3/2=2c80 c-e/2=2ceb f3=2cf2 d00-25=10a0 7=10c7 d=10cd a641-6d/2=a640 81-9b/2=a680 723-f/2=a722
   33-6f/2=a732 7a-c/2=a779 f-87/2=a77e c=a78b 91-3/2=a790 4=a7c4 7-a9/2=a796 b5-c3/2=a7b4 8-a/2=a7c7
   d1=a7d0 7-9/2=a7d6 f6=a7f5 b53=a7b3 70-bf=13a0 ff41-5a=ff21 10428-4f=10400 d8-fb=104b0 597-a1=10570
   3-b1=1057c 3-9=1058c b-c=10594 cc0-f2=10c80 18c0-df=118a0 6e60-7f=16e40 e922-43=1e900"

/-- The letters that become several in title case. -/
def titleTable : Table (List Char) := Table.mapping
  "df=53.73 149=2bc.4e f0=04a.30c 390=399.8.301 b0=a5.. 587=535.582 1e96=048.331,54.08,7.a,9.,41.2be
   f50=3a5.313 2=..300 4=..1 6=..42 b2=1fba.45 4=0386. 6=91.2,..345 c2=1fca.5 4=0389. 6=97.2,..345
   d2=9.08.00,..1 6=.42,.08.342 e2=a5..00,..1,1.13 6=5.42,.08.342 f2=1ffa.45 4=038f. 6=a9.2,..345
   fb00=046.066,.9,.c,.6.69,..c,53.74,. 13=544.576,.65,.b,e.76,4.6d"

/-- The characters beyond ASCII that have case and are not ignored by case rules. -/
def casedTable : Table Nat := Table.ranges
  "aa b5 a c0-d6 8-f6 8-1ba c-f c4-293 5-af 370-3 6-7 b-d f 86 8-a c e-a1 3-f5 7-481 a-52f 31-56 60-88
   10a0-c5 7 d d0-fa d-f 3a0-f5 8-d c80-8 90-ba d-f d00-2b 6b-77 9-9a e00-f15 8-d 20-45 8-d 50-7 9 b d
   f-7d 80-b4 6-c e c2-4 6-c d0-3 6-b e0-c f2-4 6-c 2102 7 a-13 5 9-d 24 6 8 a-d f-34 9 c-f 45-9 e 60-7f
   83-4 4b6-e9 c00-7b e-e4 b-e f2-3 d00-25 7 d a640-6d 80-9b 722-6f 71-87 b-e 90-ca d0-1 3 5-9 f5-6 a
   b30-5a 60-8 70-bf fb00-6 13-7 f21-3a 41-5a 10400-4f b0-d3 8-fb 570-a c-8a c-92 4-5 7-a1 3-b1 3-9 b-c
   c80-b2 c0-f2 18a0-df 6e40-7f d400-54 6-9c e-f a2 5-6 9-c e-b9 b d-c3 5-505 7-a d-14 6-c e-39 b-e 40-4
   6 a-50 2-6a5 8-c0 2-da c-fa c-714 6-34 6-4e 50-6e 70-88 a-a8 a-c2 4-b f00-9 b-1e e900-43 f130-49
   50-69 70-89"

/-- The characters beyond ASCII that case rules ignore. -/
def caseIgnorableTable : Table Nat := Table.ranges
  "a8 d f b4 7-8 2b0-36f 74-5 a 84-5 7 483-9 559 f 91-bd f c1-2 4-5 7 f4 600-5 10-a c 40 b-5f 70 d6-d
   f-e8 a-d 70f 11 30-4a a6-b0 eb-f5 a d 816-2d 59-b 88 90-1 8-f c9-902 3a c 41-8 d 51-7 62-3 71 81 bc
   c1-4 d e2-3 fe a01-2 3c 41-2 7-8 b-d 51 70-1 5 81-2 bc c1-5 7-8 d e2-3 fa-f b01 3c f 41-4 d 55-6 62-3
   82 c0 d c00 4 3c e-40 6-8 a-d 55-6 62-3 81 bc f c6 c-d e2-3 d00-1 3b-c 41-4 d 62-3 81 ca d2-4 6 e31
   4-a 46-e b1 4-c c6 8-d f18-9 35 7 9 71-e 80-4 6-7 d-97 9-bc c6 102d-30 2-7 9-a d-e 58-9 e-60 71-4 82
   5-6 d 9d fc 35d-f 712-4 32-3 52-3 72-3 b4-5 7-d c6 9-d3 7 d 80b-f 43 85-6 a9 920-2 7-8 32 9-b a17-8 b
   56 8-e 60 2 5-c 73-c f a7 b0-ce b00-3 34 6-a c 42 6b-73 80-1 a2-5 8-9 b-d e6 8-9 d f-f1 c2c-33 6-7
   78-d d0-2 4-e0 2-8 d f4 8-9 d2c-6a 78 9b-ff fbd f-c1 d-f dd-f ed-f fd-e 200b-f 18-9 24 7 a-e 60-4 6-f
   71 f 90-c d0-f0 c7c-d ef-f1 d6f 7f e0-ff e2f 3005 2a-d 31-5 b 99-e fc-e a015 4f8-d 60c 6f-72 4-d f
   9c-f f0-1 700-21 70 88-a f2-4 8-9 802 6 b 25-6 c c4-5 e0-f1 f 926-d 47-51 80-2 b3 6-9 c-d cf e5-6
   a29-e 31-2 5-6 43 c 70 c b0 2-4 7-8 e-f c1 dd ec-d f3-4 6 b5b-f 69-b e5 8 d fb1e b2-c2 e00-f 13 20-f
   52 5 ff f07 e 1a 3e 40 70 9e-f e3 f9-b 101fd 2e0 376-a 780-5 7-b0 2-a a01-3 5-6 c-f 38-a f e5-6 d24-7
   eab-c f46-50 82-5 1001 38-46 70 3-4 f-81 b3-6 9-a d c2 d 100-2 27-b d-34 73 80-1 b6-e c9-c f 22f-31 4
   6-7 e df e3-a 300-1 3b-c 40 66-c 70-4 438-f 42-4 6 5e b3-8 a f-c0 2-3 5b2-5 c-d f-c0 dc-d 633-a d
   f-40 ab d b0-5 7 71d-f 22-5 7-b 82f-37 9-a 93b-c e 43 d4-7 a-b e0 a01-a 33-8 b-e 47 51-6 9-b 8a-96
   8-9 c30-6 8-d f 92-a7 a-b0 2-3 5-6 d31-6 a c-d f-45 7 90-1 5 7 ef3-4 3430-8 6af0-4 b30-6 40-3 f4f
   8f-9f e0-1 3-4 aff0-3 5-b d-e bc9d-e a0-3 cf00-2d 30-46 d167-9 73-82 5-b aa-d 242-4 a00-36 b-6c 75 84
   9b-f a1-f e000-6 8-18 b-21 3-4 6-a 130-d 2ae ec-f 8d0-6 944-b f3fb-f e0001 20-7f 100-ef"

/-- A character with case, such as a letter. -/
def isCased (c : Char) : Bool :=
  if c.toNat < 128 then c.isAlpha else casedTable.covers c.toNat

/-- A character that case rules skip, such as an apostrophe or a combining mark. -/
def isCaseIgnorable (c : Char) : Bool :=
  if c.toNat < 128 then c == '\'' || c == '.' || c == ':' || c == '^' || c == '\x60'
  else caseIgnorableTable.covers c.toNat

/-- A context that goes on with a cased character, where ignorable ones are skipped. -/
def meetsCased (context : List Char) : Bool :=
  match context.dropWhile isCaseIgnorable with
  | c :: _ => isCased c
  | [] => false

/-- A capital sigma in lower case: final after a cased character unless another follows. `before` is the
text before it, nearest character first. -/
def lowerSigma (before after : List Char) : Char :=
  if meetsCased before && !meetsCased after then 'ς' else 'σ'

/-- The lower case of one character in its context. -/
def lowerChar (before : List Char) (c : Char) (after : List Char) : List Char :=
  if c.toNat < 128 then [c.toLower]
  else if c == 'Σ' then [lowerSigma before after]
  else if c == 'İ' then ['i', '\u0307']
  else [(lowerRuns.shifted? c.toNat).getD c]

/-- Lower case of a text that stands after `before`, which is given nearest character first. -/
def lowerAfter (before : List Char) : List Char → List Char
  | [] => []
  | c :: rest => lowerChar before c rest ++ lowerAfter (c :: before) rest

/-- A text in lower case. -/
def lower (s : String) : String :=
  String.ofList (lowerAfter [] s.toList)

/-- The title case of one character. -/
def titleChar (c : Char) : List Char :=
  if c.toNat < 128 then [c.toUpper]
  else (titleTable.image? c.toNat).getD [(titleRuns.shifted? c.toNat).getD c]

/-- The first character in title case and the rest in lower case. -/
def capitalize (s : String) : String :=
  match s.toList with
  | [] => ""
  | c :: rest => String.ofList (titleChar c ++ lowerAfter [c] rest)

end CodeAudit.Text
