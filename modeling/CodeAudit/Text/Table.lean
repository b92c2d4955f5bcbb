import CodeAudit.Text.Split

/-!
# Sorted tables of code points

Character properties and mappings are data of the Unicode standard. They are kept as text, one item per
range or mapping, and are looked up by binary search. A number in such a text leaves out the leading digits that
it shares with the number before it: `2c6-d1 e0-4` are the ranges from 2c6 to 2d1 and from 2e0 to 2e4.

## Main definitions

* `Table.floor?` — the last entry whose key is at most a given number.
* `Run`, `Table.shifted?` — code points that are mapped in parallel, and the image of one of them.
-/

namespace CodeAudit.Text

/-- **A table** lists keys in ascending order, each with a value. -/
abbrev Table (α : Type) := Array (Nat × α)

/-- A run of code points that are mapped in parallel: every `step`-th one from the key up to `last`. The key
itself is mapped to `image`. -/
structure Run where
  last : Nat
  step : Nat
  image : Nat

namespace Table

variable {α : Type}

/-- The last entry among the first `hi` whose key is at most `n`, given that the first `lo` entries have
such keys. -/
def floorBetween (t : Table α) (n lo hi : Nat) : Option (Nat × α) :=
  if lo < hi then
    match t[(lo + hi) / 2]? with
    | some entry =>
      if entry.1 ≤ n then floorBetween t n ((lo + hi) / 2 + 1) hi else floorBetween t n lo ((lo + hi) / 2)
    | none => none
  else if lo = 0 then none
  else t[lo - 1]?
termination_by hi - lo
decreasing_by all_goals omega

/-- The last entry whose key is at most `n`. -/
def floor? (t : Table α) (n : Nat) : Option (Nat × α) :=
  floorBetween t n 0 t.size

/-- A range table covers `n` if `n` lies between the key and the value of an entry. -/
def covers (t : Table Nat) (n : Nat) : Bool :=
  match t.floor? n with
  | some (_, last) => n ≤ last
  | none => false

/-- The value of the entry whose key is exactly `n`. -/
def image? (t : Table α) (n : Nat) : Option α :=
  match t.floor? n with
  | some (key, value) => if key = n then some value else none
  | none => none

/-- The image of a code point that is in a run. -/
def shifted? (t : Table Run) (n : Nat) : Option Char :=
  match t.floor? n with
  | some (first, run) =>
    if n ≤ run.last && (n - first) % run.step == 0 then some (Char.ofNat (run.image + (n - first))) else none
  | none => none

/-! ## Reading tables from text -/

/-- The value of a hexadecimal digit in lower case. -/
def hexDigit (c : Char) : Nat :=
  if c.isDigit then c.toNat - '0'.toNat else c.toNat - 'a'.toNat + 10

/-- The number written by lower-case hexadecimal digits. -/
def hexNumber (digits : List Char) : Nat :=
  digits.foldl (fun n c => 16 * n + hexDigit c) 0

/-- The items of a text, which are divided by blanks and line ends. -/
def items (text : String) : List (List Char) :=
  text.toList.splitBy (fun a b => (a == ' ' || a == '\n') == (b == ' ' || b == '\n'))
    |>.filter (fun item => !(item.head? == some ' ' || item.head? == some '\n'))

/-- The digits of a number that leaves out the leading digits which it shares with a number before it. -/
def carry (before digits : List Char) : List Char :=
  before.take (before.length - digits.length) ++ digits

/-- The digits of the bounds of a closed range: `41-5a` is a range and `b5` a single code point. -/
def bounds (before range : List Char) : List Char × List Char :=
  match pieces '-' range with
  | [first, last] => (carry before first, carry (carry before first) last)
  | _ => (carry before range, carry before range)

/-- Reads closed ranges behind a number. -/
def rangesAfter (before : List Char) : List (List Char) → List (Nat × Nat)
  | [] => []
  | item :: rest =>
    let (first, last) := bounds before item
    (hexNumber first, hexNumber last) :: rangesAfter last rest

/-- Reads closed ranges. -/
def ranges (text : String) : Table Nat :=
  (rangesAfter [] (items text)).toArray

/-- Reads runs behind a number. -/
def runsAfter (before : List Char) : List (List Char) → List (Nat × Run)
  | [] => []
  | item :: rest =>
    let (keys, image) := splitAt '=' item
    let (range, step) := splitAt '/' keys
    let (first, last) := bounds before range
    (hexNumber first, ⟨hexNumber last, if step.isEmpty then 1 else hexNumber step, hexNumber image⟩) ::
      runsAfter last rest
where
  /-- What stands before and behind a mark. -/
  splitAt (mark : Char) (s : List Char) : List Char × List Char :=
    (s.takeWhile (· != mark), (s.dropWhile (· != mark)).tail)

/-- Reads runs: `c0-d6=e0` maps a range in parallel and `100-2e/2=101` each second code point of one. -/
def runs (text : String) : Table Run :=
  (runsAfter [] (items text)).toArray

/-- The images of successive code points, and the digits of the last one: `69.307` is one image of two characters,
and `41-5a` are 26 images of one. A number leaves out digits that stand at its place in the image before. -/
def imagesAfter (before : List (List Char)) : List (List Char) → List (List Char) × List (List Char)
  | [] => ([], before)
  | part :: rest =>
    match pieces '-' part with
    | [_, _] =>
      let (first, last) := bounds (before.headD []) part
      let (images, left) := imagesAfter [last] rest
      ((List.range' (hexNumber first) (hexNumber last + 1 - hexNumber first)).map (fun n => [Char.ofNat n]) ++ images,
        left)
    | _ =>
      let image := (pieces '.' part).zipIdx.map fun (digits, i) => carry (before.getD i []) digits
      let (images, left) := imagesAfter image rest
      (image.map (fun digits => Char.ofNat (hexNumber digits)) :: images, left)

/-- Reads a mapping behind the digits of a key, from the code point `next` on, and behind an image. -/
def mappingAfter (key : List Char) (next : Nat) (image : List (List Char)) : List (List Char) → List (Nat × List Char)
  | [] => []
  | item :: rest =>
    let (key, start, run) := match pieces '=' item with
      | [digits, run] => (carry key digits, hexNumber (carry key digits), run)
      | _ => (key, next, item)
    let (images, image) := imagesAfter image (pieces ',' run)
    (images.zipIdx start).map Prod.swap ++ mappingAfter key (start + images.length) image rest

/-- Reads a mapping to characters: `130=69.307` maps one code point to two, `2fe=61,65` maps two successive ones, and
an item without a key goes on behind the last code point. -/
def mapping (text : String) : Table (List Char) :=
  (mappingAfter [] 0 [] (items text)).toArray

end Table

end CodeAudit.Text
