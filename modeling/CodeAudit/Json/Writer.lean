import CodeAudit.Datum.Basic

/-!
# Writing JSON

Texts are written in ASCII: other characters are escaped as 16-bit units. Numbers have their plain
layout. Nested values are indented by two blanks per level.

## Main definitions

* `Json.pretty` — a value on indented lines.
* `Json.writable` — the same, if all parts of the value can be written.
-/

namespace CodeAudit.Json

/-- A 16-bit unit as an escape. -/
def unitEscape (n : Nat) : List Char :=
  '\\' :: 'u' :: Text.hexDigits 4 n

/-- A character inside quotes. -/
def quotedChar (c : Char) : List Char :=
  let n := c.toNat
  if c == '"' then ['\\', '"']
  else if c == '\\' then ['\\', '\\']
  else if c == '\n' then ['\\', 'n']
  else if c == '\r' then ['\\', 'r']
  else if c == '\t' then ['\\', 't']
  else if n == 8 then ['\\', 'b']
  else if n == 12 then ['\\', 'f']
  else if 32 ≤ n && n < 127 then [c]
  else if n < 0x10000 then unitEscape n
  else unitEscape (0xd800 + (n - 0x10000) / 0x400) ++ unitEscape (0xdc00 + (n - 0x10000) % 0x400)

/-- A text in quotes. -/
def quote (s : String) : String :=
  String.ofList ('"' :: s.toList.flatMap quotedChar ++ ['"'])

/-- Plain layout, with the names that JSON readers know for the values that are no numbers. -/
def layout : Number.Layout :=
  { Number.plainLayout with infinity := "Infinity", negativeInfinity := "-Infinity", nan := "NaN" }

/-- The text of a key. Keys of other kinds are written as texts of their values. -/
def keyText : Datum → String
  | .text s => s
  | .null => "null"
  | .bool b => if b then "true" else "false"
  | .float x => layout.render x
  | d => d.str

/-- A line feed and the indentation of a level. -/
def lineBreak (level : Nat) : String :=
  String.ofList ('\n' :: List.replicate (2 * level) ' ')

/-- Items on lines of their own, between brackets. -/
def enclose (opening closing : String) (level : Nat) (items : List String) : String :=
  if items.isEmpty then opening ++ closing
  else
    opening ++ lineBreak (level + 1) ++ String.intercalate ("," ++ lineBreak (level + 1)) items ++
      lineBreak level ++ closing

/-- A value at a level of indentation. -/
def prettyAt (level : Nat) : Datum → String
  | .null => "null"
  | .bool b => if b then "true" else "false"
  | .int n => Number.decimalInt n
  | .float x => layout.render x
  | .text s => quote s
  | .list items => enclose "[" "]" level (itemTexts (level + 1) items)
  | .tuple items => enclose "[" "]" level (itemTexts (level + 1) items)
  | .dict entries => enclose "\x7b" "\x7d" level (entryTexts (level + 1) entries)
  | .record fields => enclose "\x7b" "\x7d" level (fieldTexts (level + 1) fields)
where
  /-- The texts of items. -/
  itemTexts (level : Nat) : List Datum → List String
    | [] => []
    | d :: rest => prettyAt level d :: itemTexts level rest
  /-- The texts of entries. -/
  entryTexts (level : Nat) : List (Datum × Datum) → List String
    | [] => []
    | (k, v) :: rest => (quote (keyText k) ++ ": " ++ prettyAt level v) :: entryTexts level rest
  /-- The texts of attributes. -/
  fieldTexts (level : Nat) : List (String × Datum) → List String
    | [] => []
    | (k, v) :: rest => (quote k ++ ": " ++ prettyAt level v) :: fieldTexts level rest

/-- **A value on indented lines.** -/
def pretty (d : Datum) : String :=
  prettyAt 0 d

/-! ## Values that cannot be written -/

/-- Whether a value can be a key. -/
def isKey : Datum → Bool
  | .list _ | .tuple _ | .dict _ | .record _ => false
  | _ => true

/-- The first part of a value that cannot be written, if there is one. -/
def unwritable? : Datum → Option Fault
  | .list items => inItems items
  | .tuple items => inItems items
  | .dict entries => inEntries entries
  | .record _ => some (.unwritable "SimpleNamespace")
  | _ => none
where
  /-- The first part of some items that cannot be written. -/
  inItems : List Datum → Option Fault
    | [] => none
    | d :: rest => (unwritable? d).or (inItems rest)
  /-- The first part of some entries that cannot be written. -/
  inEntries : List (Datum × Datum) → Option Fault
    | [] => none
    | (k, v) :: rest =>
      if isKey k then (unwritable? v).or (inEntries rest) else some (.unwritableKey k.kind)

/-- **A value on indented lines**, if all of it can be written. -/
def writable (d : Datum) : Except Fault String :=
  match unwritable? d with
  | some e => .error e
  | none => .ok (pretty d)

end CodeAudit.Json
