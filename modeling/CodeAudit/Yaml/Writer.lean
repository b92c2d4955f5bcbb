import CodeAudit.Yaml.Value

/-!
# Values as YAML text

Collections are written on lines of their own, indented by two; empty ones in brackets. A list in a map
stands at the column of its key. Lines are folded at a blank once they are longer than 80 characters.

## Main definitions

* `Yaml.Page` — a text that is being written.
* `Yaml.write` — the text of a value.
-/

namespace CodeAudit.Yaml

/-- A text that is being written: its last column, whether a blank or the start of a line was written last,
and whether only signs of structure stand on the last line. -/
structure Page where
  text : String := ""
  column : Nat := 0
  gap : Bool := true
  fresh : Bool := true

/-- The length beyond which lines are folded. -/
def greatestWidth : Nat := 80

/-- The steps by which collections are indented. -/
def indentStep : Nat := 2

namespace Page

/-- Writes characters. -/
def put (p : Page) (cs : List Char) : Page :=
  { p with text := p.text ++ String.ofList cs, column := p.column + cs.length }

/-- Writes a sign, behind a blank if one is needed. -/
def sign (p : Page) (s : String) (spaced : Bool) (gap fresh : Bool := false) : Page :=
  let cs := if p.gap || !spaced then s.toList else ' ' :: s.toList
  { p.put cs with gap := gap, fresh := p.fresh && fresh }

/-- Ends a line. -/
def newLine (p : Page) : Page :=
  ⟨p.text ++ "\n", 0, true, true⟩

/-- Goes to a column, on a new line if something stands there. -/
def indentTo (p : Page) (column : Nat) : Page :=
  let p := if !p.fresh || p.column > column || (p.column = column && !p.gap) then p.newLine else p
  if p.column < column then { p.put (List.replicate (column - p.column) ' ') with gap := true } else p

/-- Says that text was written last. -/
def settled (p : Page) : Page :=
  { p with gap := false, fresh := false }

end Page

/-! ## How a text can be written -/

/-- What matters about a text for the way in which it can be written. -/
structure ScalarForm where
  plain : Bool
  singleQuoted : Bool
  multiline : Bool

/-- Whether the character at the start of a text, with the one behind it, has a meaning of its own there. -/
def marksStart (c : Char) (gapBehind : Bool) : Bool :=
  "#,[]\x7b\x7d&*!|>'\"%@\x60".toList.contains c || (gapBehind && (c == '?' || c == ':' || c == '-'))

/-- Whether a sign inside a text has a meaning of its own: a colon before a gap or a hash behind one. -/
def marksInside : List Char → Bool
  | a :: b :: rest =>
    (b == ':' && isGap (rest.headD ' ')) || (b == '#' && isGap a) || marksInside (b :: rest)
  | _ => false

/-- Whether two neighbours of a text are of two classes. -/
def hasNeighbours (p q : Char → Bool) (cs : List Char) : Bool :=
  (cs.zip (cs.drop 1)).any fun (a, b) => p a && q b

/-- The line ends that a text can hold. -/
def isTextBreak (c : Char) : Bool :=
  c == '\n' || c == '\x85' || c == '\u2028' || c == '\u2029'

/-- How a text can be written. -/
def ScalarForm.of (s : String) : ScalarForm :=
  match s.toList with
  | [] => ⟨true, true, false⟩
  | c :: rest =>
    let cs := c :: rest
    let isSpace (c : Char) := c == ' '
    let marked := s.startsWith "---" || s.startsWith "..." || marksStart c (isGap (rest.headD ' ')) || marksInside cs
    let isEdge (c : Char) := isSpace c || isTextBreak c
    let special := cs.any fun c => !(c == '\n' || (' ' ≤ c && c ≤ '~'))
    let multiline := cs.any isTextBreak
    let single := !(special || hasNeighbours isTextBreak isSpace cs || hasNeighbours isSpace isTextBreak cs)
    ⟨single && !marked && !multiline && !isEdge c && !(cs.getLast?.any isEdge), single, multiline⟩

/-! ## Scalars -/

/-- The parts of a text: runs of blanks, runs of line ends, and what stands between them. -/
def runs (s : List Char) : List (List Char) :=
  s.splitBy fun a b => (a == ' ') == (b == ' ') && isTextBreak a == isTextBreak b

variable (indent : Nat)

/-- Writes a text as it is. -/
def putPlain (split : Bool) (s : String) (p : Page) : Page :=
  let p := if p.gap then p else p.put [' ']
  (runs s.toList).foldl (fun p run =>
    if run == [' '] && split && p.column > greatestWidth then (p.indentTo indent).settled else p.put run) p.settled

/-- Writes a part of a text in single quotes. -/
def putSinglePart (mayFold : Bool) (p : Page) (run : List Char) : Page :=
  if run.head?.any isTextBreak then
    let p := if run.head? == some '\n' then p.newLine else p
    (run.foldl (fun p _ => p.newLine) p).indentTo indent
  else if run == [' '] && mayFold && p.column > greatestWidth then p.indentTo indent
  else p.put (run.flatMap fun c => if c == '\'' then [c, c] else [c])

/-- Writes a text in single quotes. A blank at its start or end is never folded. -/
def putSingle (split : Bool) (s : String) (p : Page) : Page :=
  let parts := runs s.toList
  let p := p.sign "'" true
  let p := (parts.zipIdx).foldl (fun p (run, i) =>
    putSinglePart indent (split && i > 0 && i + 1 < parts.length) p run) p
  p.sign "'" false

/-- A character in double quotes, if it cannot stand for itself. -/
def escape (c : Char) : Option (List Char) :=
  match c with
  | '\x00' => some ['\\', '0']
  | '\x07' => some ['\\', 'a']
  | '\x08' => some ['\\', 'b']
  | '\t' => some ['\\', 't']
  | '\n' => some ['\\', 'n']
  | '\x0b' => some ['\\', 'v']
  | '\x0c' => some ['\\', 'f']
  | '\r' => some ['\\', 'r']
  | '\x1b' => some ['\\', 'e']
  | '"' => some ['\\', '"']
  | '\\' => some ['\\', '\\']
  | '\x85' => some ['\\', 'N']
  | '\xa0' => some ['\\', '_']
  | '\u2028' => some ['\\', 'L']
  | '\u2029' => some ['\\', 'P']
  | c =>
    let upper (width : Nat) := (Text.hexDigits width c.toNat).map Char.toUpper
    if ' ' ≤ c && c ≤ '~' then none
    else if c.toNat ≤ 0xff then some ('\\' :: 'x' :: upper 2)
    else if c.toNat ≤ 0xffff then some ('\\' :: 'u' :: upper 4)
    else some ('\\' :: 'U' :: upper 8)

/-- Folds a line inside double quotes: a backslash ends it, and one stands before a blank that follows. -/
def foldDouble (behind : Char) (p : Page) : Page :=
  let p := ((p.put ['\\']).indentTo indent).settled
  if behind == ' ' then p.put ['\\'] else p

/-- Writes the rest of a text in double quotes. `held` holds characters that are not written yet, the last
one first. -/
def putDoubleFrom (split : Bool) : (isFirst : Bool) → (held : List Char) → List Char → Page → Page
  | _, held, [], p => p.put held.reverse
  | isFirst, held, c :: rest, p =>
    let mayFold := split && !isFirst && !rest.isEmpty
    match escape c with
    | some e =>
      let p := (p.put held.reverse).put e
      let p := if mayFold && p.column > greatestWidth + 1 then foldDouble indent (rest.headD ' ') p else p
      putDoubleFrom split false [] rest p
    | none =>
      if mayFold && (c == ' ' || held.isEmpty) && p.column + held.length > greatestWidth then
        putDoubleFrom split false [c] rest (foldDouble indent c (p.put held.reverse))
      else putDoubleFrom split false (c :: held) rest p

/-- Writes a text in double quotes. -/
def putDouble (split : Bool) (s : String) (p : Page) : Page :=
  (putDoubleFrom indent split true [] s.toList (p.sign "\"" true)).sign "\"" false

/-- Writes a text, as it is if it then reads as a text, else in quotes. -/
def putText (isKey : Bool) (s : String) (p : Page) : Page :=
  let form := ScalarForm.of s
  if form.plain && meaning s = .text then putPlain indent (!isKey) s p
  else if form.singleQuoted && !(isKey && form.multiline) then putSingle indent (!isKey) s p
  else putDouble indent (!isKey) s p

/-- The text of a number: it has a point or is written in words. -/
def floatText (x : Float) : String :=
  if x.isNaN then ".nan"
  else if x.isInf then (if x > 0 then ".inf" else "-.inf")
  else
    let s := Number.plain x
    if s.contains '.' then s else s.replace "e" ".0e"

/-- The text of a scalar other than a text, and the length of its tag. -/
def scalarText? : Datum → Option (String × Nat)
  | .null => some ("null", 6)
  | .bool b => some (if b then "true" else "false", 6)
  | .int n => some (Number.decimalInt n, 5)
  | .float x => some (floatText x, 7)
  | _ => none

/-- Whether a value can stand before a colon on one line. -/
def isShortKey : Datum → Bool
  | .text s => !s.isEmpty && s.length + 5 < 128 && !(ScalarForm.of s).multiline
  | .list items => items.isEmpty
  | .tuple items => items.isEmpty
  | .dict entries => entries.isEmpty
  | d => (scalarText? d).any fun (s, tag) => s.length + tag < 128

/-! ## Collections -/

/-- The column at which a collection inside another stands. -/
def deeper (indent : Option Nat) : Nat :=
  match indent with
  | some n => n + indentStep
  | none => 0

/-- The column at which the further lines of a scalar stand. -/
def scalarIndent (indent : Option Nat) : Nat :=
  (indent.getD 0) + indentStep

mutual

/-- Writes a value inside a collection at a column. -/
def putValue (indent : Option Nat) (inMap isKey : Bool) : Datum → Page → Page
  | .text s, p => putText (scalarIndent indent) isKey s p
  | .list items, p => putList indent inMap items p
  | .tuple items, p => putList indent inMap items p
  | .dict entries, p =>
    if entries.isEmpty then (p.sign "\x7b" true true).sign "\x7d" false
    else putEntries (deeper indent) entries p
  | .null, p => putPlain (scalarIndent indent) (!isKey) "null" p
  | .bool b, p => putPlain (scalarIndent indent) (!isKey) (if b then "true" else "false") p
  | .int n, p => putPlain (scalarIndent indent) (!isKey) (Number.decimalInt n) p
  | .float x, p => putPlain (scalarIndent indent) (!isKey) (floatText x) p
  | .record _, p => p

/-- Writes a list. Behind the colon of a key it stands at the column of the map. -/
def putList (indent : Option Nat) (inMap : Bool) : List Datum → Page → Page
  | [], p => (p.sign "[" true true).sign "]" false
  | item :: items, p =>
    let column := if inMap && !p.fresh then indent.getD 0 else deeper indent
    putItems column items (putValue (some column) false false item ((p.indentTo column).sign "-" true false true))

/-- Writes the items of a list. -/
def putItems (column : Nat) : List Datum → Page → Page
  | [], p => p
  | item :: items, p =>
    putItems column items (putValue (some column) false false item ((p.indentTo column).sign "-" true false true))

/-- Writes the entries of a map. -/
def putEntries (column : Nat) : List (Datum × Datum) → Page → Page
  | [], p => p
  | (k, v) :: entries, p =>
    let p := p.indentTo column
    let p :=
      if isShortKey k then (putValue (some column) true true k p).sign ":" false
      else
        let p := putValue (some column) true false k (p.sign "?" true false true)
        (p.indentTo column).sign ":" true false true
    putEntries column entries (putValue (some column) true false v p)

end

/-- A part of a value that has no YAML form: the first one in the order of writing. -/
def unwritable? : Datum → Option Datum
  | .record fields => some (.record fields)
  | .list items => firstItem items
  | .tuple items => firstItem items
  | .dict entries => firstEntry entries
  | _ => none
where
  firstItem : List Datum → Option Datum
    | [] => none
    | d :: rest => (unwritable? d).or (firstItem rest)
  firstEntry : List (Datum × Datum) → Option Datum
    | [] => none
    | (k, v) :: rest => ((unwritable? k).or (unwritable? v)).or (firstEntry rest)

/-- Whether a value is written without signs around it, so that an end mark must follow it. -/
def isBare : Datum → Bool
  | .text s => (ScalarForm.of s).plain && meaning s = .text
  | d => (scalarText? d).isSome

/-- **The text of a value.** -/
def write (d : Datum) : Except Fault String :=
  match unwritable? d with
  | some part => .error (.unwritableYaml part.shown)
  | none =>
    let p := (putValue none false false d {}).indentTo 0
    .ok (p.text ++ if isBare d then "...\n" else "")

end CodeAudit.Yaml
