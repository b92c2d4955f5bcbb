import CodeAudit.Fault
import CodeAudit.Number.Decimal

/-!
# Data of unknown kind

Findings, rules and replies come from outside, so their fields may hold values of any kind. A datum is
such a value.

## Main definitions

* `Datum` — the values.
* `Datum.entry?`, `Datum.set` — look-up and update of the entries of a dictionary.
-/

namespace CodeAudit

/-- A value of any kind. Dictionaries and records keep the order of their entries. -/
inductive Datum
  | null
  | bool (b : Bool)
  | int (n : Int)
  | float (x : Float)
  | text (s : String)
  | list (items : List Datum)
  | tuple (items : List Datum)
  | dict (entries : List (Datum × Datum))
  /-- A value with named attributes. -/
  | record (fields : List (String × Datum))
deriving Inhabited

namespace Datum

/-- The name of a value's kind. -/
def kind : Datum → String
  | null => "NoneType"
  | bool _ => "bool"
  | int _ => "int"
  | float _ => "float"
  | text _ => "str"
  | list _ => "list"
  | tuple _ => "tuple"
  | dict _ => "dict"
  | record _ => "types.SimpleNamespace"

/-- Whether a value counts as true: nothing, zero and everything empty do not. -/
def truthy : Datum → Bool
  | null => false
  | bool b => b
  | int n => n ≠ 0
  | float x => !(x == 0)
  | text s => !s.isEmpty
  | list items => !items.isEmpty
  | tuple items => !items.isEmpty
  | dict entries => !entries.isEmpty
  | record _ => true

/-- The value itself if it counts as true, else another. -/
def orElse (d other : Datum) : Datum :=
  if d.truthy then d else other

/-! ## Text -/

/-- The text of a value as it stands inside another: texts are quoted. -/
def shown : Datum → String
  | null => "None"
  | bool true => "True"
  | bool false => "False"
  | int n => Number.decimalInt n
  | float x => Number.plain x
  | text s => Text.quoted s
  | list items => "[" ++ String.intercalate ", " (shownItems items) ++ "]"
  | tuple [item] => "(" ++ shown item ++ ",)"
  | tuple items => "(" ++ String.intercalate ", " (shownItems items) ++ ")"
  | dict entries => "\x7b" ++ String.intercalate ", " (shownEntries entries) ++ "\x7d"
  | record fields => "namespace(" ++ String.intercalate ", " (shownFields fields) ++ ")"
where
  /-- The texts of items. -/
  shownItems : List Datum → List String
    | [] => []
    | d :: rest => shown d :: shownItems rest
  /-- The texts of entries: key, colon and value. -/
  shownEntries : List (Datum × Datum) → List String
    | [] => []
    | (k, v) :: rest => (shown k ++ ": " ++ shown v) :: shownEntries rest
  /-- The texts of attributes: name, equals sign and value. -/
  shownFields : List (String × Datum) → List String
    | [] => []
    | (name, v) :: rest => (name ++ "=" ++ shown v) :: shownFields rest

/-- The text of a value by itself: a text is not quoted. -/
def str : Datum → String
  | text s => s
  | d => shown d

/-! ## Equality and look-up -/

/-- Numbers as exact values: truth values count as zero and one. -/
inductive Numeric
  | int (n : Int)
  | float (x : Float)

/-- The number that a value is, if it is one. -/
def numeric? : Datum → Option Numeric
  | bool b => some (.int (if b then 1 else 0))
  | int n => some (.int n)
  | float x => some (.float x)
  | _ => none

/-- Compares two numbers exactly; nothing is comparable with not-a-number. -/
def Numeric.compare? : Numeric → Numeric → Option Ordering
  | .int m, .int n => some (compare m n)
  | .int m, .float y => Number.compareInt? m y
  | .float x, .int n => (Number.compareInt? n x).map Ordering.swap
  | .float x, .float y => Number.compareFloat? x y

/-- Equality of values. Numbers agree if their values do, dictionaries if they have the same entries in
any order. -/
def equals (a b : Datum) : Bool :=
  match a, b with
  | text s, text t => s == t
  | null, null => true
  | list xs, list ys => equalItems xs ys
  | tuple xs, tuple ys => equalItems xs ys
  | dict xs, dict ys => xs.length == ys.length && equalEntries xs ys
  | record xs, record ys => xs.length == ys.length && equalFields xs ys
  | a, b =>
    match a.numeric?, b.numeric? with
    | some m, some n => m.compare? n == some .eq
    | _, _ => false
where
  /-- Items agree one by one. -/
  equalItems : List Datum → List Datum → Bool
    | [], [] => true
    | x :: xs, y :: ys => equals x y && equalItems xs ys
    | _, _ => false
  /-- Every entry has an equal one among others. -/
  equalEntries : List (Datum × Datum) → List (Datum × Datum) → Bool
    | [], _ => true
    | (k, v) :: rest, ys => ys.any (fun (l, w) => equals k l && equals v w) && equalEntries rest ys
  /-- Every attribute has an equal one among others. -/
  equalFields : List (String × Datum) → List (String × Datum) → Bool
    | [], _ => true
    | (k, v) :: rest, ys => ys.any (fun (l, w) => k == l && equals v w) && equalFields rest ys

instance : BEq Datum := ⟨equals⟩

/-- The value under a key in a row of entries. -/
def lookup (key : Datum) : List (Datum × Datum) → Option Datum
  | [] => none
  | (k, v) :: rest => if equals k key then some v else lookup key rest

/-- Puts a value under a key: a present key keeps its place, a new one comes last. -/
def insert (key value : Datum) : List (Datum × Datum) → List (Datum × Datum)
  | [] => [(key, value)]
  | (k, v) :: rest => if equals k key then (k, value) :: rest else (k, v) :: insert key value rest

/-- Puts many entries, one after another. -/
def insertAll (entries : List (Datum × Datum)) (into : List (Datum × Datum)) : List (Datum × Datum) :=
  entries.foldl (fun acc (k, v) => insert k v acc) into

/-- The value of a dictionary's entry with a text key. -/
def entry? (d : Datum) (key : String) : Option Datum :=
  match d with
  | dict entries => lookup (text key) entries
  | _ => none

/-- A dictionary with text keys. -/
def object (entries : List (String × Datum)) : Datum :=
  dict (entries.map fun (k, v) => (text k, v))

/-- The value of a record's attribute. -/
def field? (d : Datum) (name : String) : Option Datum :=
  match d with
  | record fields => (fields.find? (·.1 == name)).map (·.2)
  | _ => none

/-- An attribute of a record, with a default. -/
def fieldOr (d : Datum) (name : String) (default : Datum) : Datum :=
  (d.field? name).getD default

/-- The kind of the first part that cannot be a key, if the value cannot: lists, dictionaries and records
cannot, and a tuple can if its items can. -/
def unhashableKind? : Datum → Option String
  | list _ => some "list"
  | dict _ => some "dict"
  | record _ => some "types.SimpleNamespace"
  | tuple items => firstUnhashable items
  | _ => none
where
  /-- The kind of the first item that cannot be a key. -/
  firstUnhashable : List Datum → Option String
    | [] => none
    | d :: rest =>
      match unhashableKind? d with
      | some kind => some kind
      | none => firstUnhashable rest

end Datum

end CodeAudit
