import CodeAudit.Session.Basic

/-!
# The console

What a session shows is marked with styles in square brackets. On a plain console the marks are left out and
tables are written a row on a line.

## Main definitions

* `Console.plain` — a text without its marks.
* `Files.changed`, `Files.removed` — how one tree of files differs from another.
-/

namespace CodeAudit

namespace Console

/-- Whether a bracket before this character opens a mark. -/
def opensMark (c : Char) : Bool :=
  c.isLower || c == '/' || c == '#' || c == '@'

/-- What follows a mark, if the text behind a bracket is one. A mark has no bracket inside. -/
def afterMark? (rest : List Char) : Option (List Char) :=
  match rest.head?, rest.dropWhile fun c => c != '[' && c != ']' with
  | some c, ']' :: after => if opensMark c then some after else none
  | _, _ => none

/-- A text without its marks, in at most the given number of steps. -/
def plainWithin : Nat → List Char → List Char
  | 0, _ => []
  | _ + 1, [] => []
  | n + 1, c :: rest =>
    if c == '[' then
      match afterMark? rest with
      | some after => plainWithin n after
      | none => c :: plainWithin n rest
    else c :: plainWithin n rest

/-- A text without its marks. Every step takes a character at least, so the length bounds the steps. -/
def plain (text : String) : String :=
  String.ofList (plainWithin text.length text.toList)

/-- The cells of a row on one line. -/
def row (cells : List String) : String :=
  " | ".intercalate (cells.map plain)

end Console

/-- The lines of what is shown. -/
def Display.lines : Display → List String
  | .rule text => ["--- " ++ Console.plain text ++ " ---"]
  | .line text => [Console.plain text]
  | .table title headers rows => Console.plain title :: Console.row headers :: rows.map Console.row
  | .element name contents => [Console.row (name :: contents.map Datum.str)]

namespace Files

/-- What stands at a place of one tree and did not stand there in another. -/
def changed (before after : Files) : List (Place × Entry) :=
  after.entries.filter fun (place, e) => before.entry? place != some e

/-- The highest places of one tree at which nothing stands in another. -/
def removed (before after : Files) : List Place :=
  (before.entries.map (·.1)).filter fun place =>
    (after.entry? place).isNone && (after.entry? place.dropLast).isSome

end Files

end CodeAudit
