import CodeAudit.Detect.Complexity
import CodeAudit.Score.Scalar

/-!
# Hotspots

A hotspot is a file that is both complex and depended upon.

## Main definitions

* `Hotspot` — a file with its rank.
* `Hotspot.rank` — the hotspots of complexity findings, worst first.
-/

namespace CodeAudit

/-- A file with its rank. -/
structure Hotspot (α : Type) where
  file : String
  score : α
  /-- The number of edges into the file. -/
  fanIn : Nat
  /-- The sum of the complexities found in the file. -/
  complexity : α

namespace Hotspot

variable {α : Type} [Quantity α]

/-- Zero. -/
def zero : α := Quantity.fraction 0 1

/-- Adds a number to the sum of a file; a file that has none yet goes last. -/
def addTo (file : String) (x : α) : List (String × α) → List (String × α)
  | [] => [(file, Quantity.add zero x)]
  | (f, sum) :: rest =>
    if f == file then (f, Quantity.add sum x) :: rest else (f, sum) :: addTo file x rest

/-- The sums of the complexities of the files, in the order in which the files are first seen. -/
def sums (findings : List ComplexityFinding) : List (String × α) :=
  findings.foldl (fun acc f => addTo f.file (Quantity.fraction f.value 1) acc) []

/-- The greatest of some numbers; zero if there are none. -/
def greatest : List α → α
  | [] => zero
  | x :: xs => xs.foldl (fun m y => if Quantity.less m y then y else m) x

/-- A number as a share of a greatest one; nothing counts as one. -/
def share (x whole : α) : α :=
  Quantity.div x (if Quantity.equal whole zero then Quantity.fraction 1 1 else whole)

/-- A count. -/
def count (n : Nat) : α := Quantity.fraction n 1

/-- The text of a row, which decides the order of rows that are equal otherwise. -/
def text (h : Hotspot α) : String :=
  "(" ++ Text.quoted h.file ++ ", " ++ Quantity.text h.score ++ ", " ++ Number.decimalInt h.fanIn ++ ", " ++
    Quantity.text h.complexity ++ ")"

/-- Whether a row comes before another one: it has a greater score, else a greater number of edges, else a
greater complexity, else a smaller text. -/
def before (a b : Hotspot α) : Bool :=
  if !Quantity.equal a.score b.score then Quantity.less b.score a.score
  else if a.fanIn ≠ b.fanIn then b.fanIn < a.fanIn
  else if !Quantity.equal a.complexity b.complexity then Quantity.less b.complexity a.complexity
  else a.text < b.text

/-- The rows of files with given complexities, in the given order. -/
def rows (fanIn : List (String × Nat)) (sums : List (String × α)) : List (Hotspot α) :=
  let mostFanIn := (fanIn.map (·.2)).foldl max 0
  let mostComplex := greatest (sums.map (·.2))
  sums.map fun (file, sum) =>
    let edges := ((fanIn.find? (·.1 == (Path.ofString file).stem)).map (·.2)).getD 0
    ⟨file, Quantity.mul (share (count edges) (count mostFanIn)) (share sum mostComplex), edges, sum⟩

/-- **The hotspots of complexity findings, worst first.** -/
def rank (fanIn : List (String × Nat)) (findings : List ComplexityFinding) : List (Hotspot α) :=
  (rows fanIn (sums findings)).mergeSort fun a b => !before b a

/-- A hotspot as a value. -/
def toDatum (h : Hotspot Float) : Datum :=
  .object [("path", .text h.file), ("score", .float h.score), ("fan_in", .int h.fanIn),
    ("complexity_sum", .float h.complexity)]

end Hotspot

end CodeAudit
