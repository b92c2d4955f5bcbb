/-!
# Splitting and joining text

## Main definitions

* `pieces`, `splitOn` — the parts of a text between occurrences of a mark.
* `occursIn`, `replaceAll` — search for a text inside another.
-/

namespace CodeAudit.Text

/-- The parts of a text between occurrences of a mark; a text without the mark is its only part. -/
def pieces (mark : Char) : List Char → List (List Char)
  | [] => [[]]
  | c :: rest =>
    if c == mark then [] :: pieces mark rest
    else match pieces mark rest with
      | piece :: more => (c :: piece) :: more
      | [] => [[c]]

/-- The parts of a text between occurrences of a mark. -/
def splitOn (mark : Char) (s : String) : List String :=
  (pieces mark s.toList).map String.ofList

/-- A character that ends a line by itself. -/
def isLineEnd (c : Char) : Bool :=
  let n := c.toNat
  (10 ≤ n && n ≤ 13) || (28 ≤ n && n ≤ 30) || n == 0x85 || n == 0x2028 || n == 0x2029

/-- Lines of a text, without their ends, where `ends` says what ends a line; a carriage return takes a
line feed behind it along. `line` is the current line, last character first. -/
def linesFrom (ends : Char → Bool) (line : List Char) : List Char → List (List Char)
  | [] => if line.isEmpty then [] else [line.reverse]
  | '\r' :: '\n' :: rest => line.reverse :: linesFrom ends [] rest
  | c :: rest => if ends c then line.reverse :: linesFrom ends [] rest else linesFrom ends (c :: line) rest

/-- The lines of a text. No line follows the last line end. -/
def lines (s : String) : List String :=
  (linesFrom isLineEnd [] s.toList).map String.ofList

/-- Every carriage return, with a line feed behind it if there is one, becomes a line feed. -/
def unifyNewlines : List Char → List Char
  | [] => []
  | '\r' :: '\n' :: rest => '\n' :: unifyNewlines rest
  | c :: rest => (if c == '\r' then '\n' else c) :: unifyNewlines rest

/-- Lines with their ends, where only carriage returns and line feeds end a line. -/
def physicalLinesFrom (line : List Char) : List Char → List (List Char)
  | [] => if line.isEmpty then [] else [line.reverse]
  | '\r' :: '\n' :: rest => ('\n' :: '\r' :: line).reverse :: physicalLinesFrom [] rest
  | c :: rest =>
    if c == '\r' || c == '\n' then (c :: line).reverse :: physicalLinesFrom [] rest
    else physicalLinesFrom (c :: line) rest

/-- The lines of a source text with their ends. -/
def physicalLines (s : String) : List (List Char) :=
  physicalLinesFrom [] s.toList

/-- Replaces each tab by one to eight blanks, up to the next tab stop; `column` is the current column. -/
def expandTabsFrom (column : Nat) : List Char → List Char
  | [] => []
  | c :: rest =>
    if c == '\t' then
      List.replicate (8 - column % 8) ' ' ++ expandTabsFrom (column + (8 - column % 8)) rest
    else c :: expandTabsFrom (if c == '\n' || c == '\r' then 0 else column + 1) rest

/-- A text with its tabs expanded. -/
def expandTabs (s : List Char) : List Char :=
  expandTabsFrom 0 s

/-- The rest of a text behind a leading part, if it starts with that part. -/
def dropLeading? : List Char → List Char → Option (List Char)
  | [], s => some s
  | _ :: _, [] => none
  | p :: ps, c :: cs => if p == c then dropLeading? ps cs else none

/-- Whether a text occurs inside another. -/
def occursIn (part : List Char) : List Char → Bool
  | [] => part.isEmpty
  | c :: rest => (dropLeading? part (c :: rest)).isSome || occursIn part rest

/-- Whether the text `part` occurs inside `s`. -/
def contains (s part : String) : Bool :=
  occursIn part.toList s.toList

/-- Whether `s` ends with `tail`. -/
def endsWith (s tail : String) : Bool :=
  (dropLeading? tail.toList.reverse s.toList.reverse).isSome

/-- Whether `s` starts with `head`. -/
def startsWith (s head : String) : Bool :=
  (dropLeading? head.toList s.toList).isSome

/-- The texts with a separator between neighbours. -/
def joinWith (separator : String) (parts : List String) : String :=
  String.intercalate separator parts

end CodeAudit.Text
