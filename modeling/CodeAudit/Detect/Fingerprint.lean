import CodeAudit.Datum.Arithmetic

/-!
# Fingerprints of source text

Two texts are compared by their tokens. Names and numbers lose their spelling, so renaming changes
nothing; the rows of `k` tokens in a text are its fingerprint, and two fingerprints are compared by the
share of rows that they have in common.

## Main definitions

* `Token`, `tokens` — the tokens of a text; `normalize` gives their texts.
* `overlap`, `jaccard` — how much two sets have in common.
-/

namespace CodeAudit.Fingerprint

/-- A token: a name, a number, or a mark that stands for itself. -/
inductive Token
  | name
  | number
  | mark (s : String)
deriving DecidableEq

/-- The text that stands for a token. -/
def Token.text : Token → String
  | name => "ID"
  | number => "NUM"
  | mark s => s

/-- The first character of a name. -/
def isNameStart (c : Char) : Bool :=
  c.isAlpha || c == '_'

/-- A further character of a name. -/
def isNameChar (c : Char) : Bool :=
  c.isAlphanum || c == '_'

/-- Two characters that form a mark. -/
def isPair (a b : Char) : Bool :=
  String.ofList [a, b] ∈ ["==", "!=", "<=", ">=", "&&", "||"]

/-- A character that is a mark by itself. -/
def isSingle (c : Char) : Bool :=
  c ∈ ['\x7b', '\x7d', '(', ')', '[', ']', ';', ',', '.', '+', '-', '*', '/', '%', '<', '>']

/-- The word that a reader is inside of. -/
inductive Word
  | name
  | number
deriving DecidableEq

/-- The tokens of a text; `word` is the word to which the next character may belong, whose token is
already given. Characters that belong to no token are skipped. -/
def tokensFrom (word : Option Word) : List Char → List Token
  | [] => []
  | c :: rest =>
    if word = some .name && isNameChar c then tokensFrom word rest
    else if word = some .number && Text.isDecimal c then tokensFrom word rest
    else if isNameStart c then .name :: tokensFrom (some .name) rest
    else if Text.isDecimal c then .number :: tokensFrom (some .number) rest
    else match rest with
      | d :: more =>
        if isPair c d then .mark (String.ofList [c, d]) :: tokensFrom none more
        else if isSingle c then .mark (String.singleton c) :: tokensFrom none (d :: more)
        else tokensFrom none (d :: more)
      | [] => if isSingle c then [.mark (String.singleton c)] else []

/-- The tokens of a text. -/
def tokens (s : String) : List Token :=
  tokensFrom none s.toList

/-- The texts of the tokens of a text. -/
def normalize (s : String) : List String :=
  (tokens s).map Token.text

/-! ## Rows of tokens -/

variable {α : Type} [BEq α]

/-- The different rows of `k` items that begin at each position at which a row of that length fits. For a
negative `k` a row ends that far before the end of its list and position. -/
def rows (xs : List α) (k : Int) : List (List α) :=
  ((List.range (xs.length - k + 1).toNat).map fun (i : Nat) => Sequence.slice xs i (i + k)).eraseDups

/-- The rows of items of a given length; there are none if there are fewer items. -/
def shingles (xs : List α) (k : Datum) : Except Fault (List (List α)) := do
  if ← Datum.ordered .lt (.int xs.length) k then return []
  return rows xs (← k.toIndex)

/-! ## Similarity -/

/-- The sizes of the intersection and of the union of two sets, given by lists without repetition. -/
def overlap (a b : List α) : Nat × Nat :=
  let common := (a.filter b.contains).length
  (common, a.length + b.length - common)

/-- The share of common items of two sets; two empty sets have nothing in common. -/
def jaccard (a b : List α) : Float :=
  let (common, union) := overlap a b
  if union = 0 then 0 else Number.ratio common union

end CodeAudit.Fingerprint
