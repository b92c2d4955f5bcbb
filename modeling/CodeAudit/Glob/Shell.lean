/-!
# Shell patterns

In a shell pattern a star stands for any text, a question mark for any character and brackets for one
character of a class. Slashes are characters like others.

## Main definitions

* `Shell.Part`, `Shell.parse` — the parts of a pattern.
* `Shell.fitsAny` — whether one of several patterns does.
-/

namespace CodeAudit.Shell

/-- A part of a shell pattern. -/
inductive Part
  /-- Any text. -/
  | star
  /-- Any character. -/
  | any
  | char (c : Char)
  /-- A character in one of some ranges, or in none of them. -/
  | oneOf (negated : Bool) (ranges : List (Char × Char))
deriving DecidableEq

/-- Whether a part that stands for one character accepts a character. -/
def Part.admits : Part → Char → Bool
  | star, _ => true
  | any, _ => true
  | char c, x => c == x
  | oneOf negated ranges, x => ranges.any (fun (lo, hi) => lo ≤ x && x ≤ hi) != negated

/-! ## Classes -/

/-- Splits the text of a class at the hyphens that make ranges: `before` is the current piece, last
character first, and `skip` the number of characters that cannot be such a hyphen. -/
def rangePieces (before : List Char) : (skip : Nat) → List Char → List (List Char)
  | _, [] => [before.reverse]
  | 0, '-' :: rest => before.reverse :: rangePieces [] 2 rest
  | skip, c :: rest => rangePieces (c :: before) (skip - 1) rest

/-- An empty last piece means that the class ends with a hyphen, which then stands for itself. -/
def closePieces (pieces : List (List Char)) : List (List Char) :=
  match pieces.reverse with
  | [] :: last :: others => ((last ++ ['-']) :: others).reverse
  | _ => pieces

/-- Drops the ranges whose ends are out of order, from the right. -/
def dropEmptyRanges : List (List Char) → List (List Char)
  | [] => []
  | piece :: rest =>
    match dropEmptyRanges rest with
    | [] => [piece]
    | next :: others =>
      match piece.getLast?, next.head? with
      | some lo, some hi =>
        if lo > hi then (piece.dropLast ++ next.drop 1) :: others else piece :: next :: others
      | _, _ => piece :: next :: others

/-- The ranges of a row of pieces: neighbours meet in a range, and every other character is a range of its
own. A hyphen with nothing before it stands for itself. -/
def rangesOf (pieces : List (List Char)) : List (Char × Char) :=
  match pieces with
  | [] => []
  | [piece] => piece.map fun c => (c, c)
  | piece :: next :: rest =>
    match piece.getLast?, next with
    | some lo, hi :: more => piece.dropLast.map (fun c => (c, c)) ++ (lo, hi) :: rangesOf (more :: rest)
    | _, _ => ('-', '-') :: rangesOf (next :: rest)
termination_by pieces.length

/-- The class of some pieces, which is negated if they start with an exclamation mark. -/
def classOfPieces : List (List Char) → Part
  | ('!' :: piece) :: rest => .oneOf true (rangesOf (piece :: rest))
  | pieces => .oneOf false (rangesOf pieces)

/-- The class with a given text between its brackets. -/
def classOf (body : List Char) : Part :=
  let skip := if body.head? == some '!' then 2 else 1
  classOfPieces
    (if body.contains '-' then dropEmptyRanges (closePieces (rangePieces [] skip body)) else [body])

/-- The start of a class in which a closing bracket stands for itself, and the rest. -/
def splitLead : List Char → List Char × List Char
  | '!' :: ']' :: rest => (['!', ']'], rest)
  | ']' :: rest => ([']'], rest)
  | '!' :: rest => (['!'], rest)
  | rest => ([], rest)

/-- Splitting off the start of a class loses nothing. -/
theorem splitLead_append (s : List Char) : (splitLead s).1 ++ (splitLead s).2 = s := by
  fun_cases splitLead s <;> rfl

/-- The text between brackets and what follows the closing one, if there is one. A closing bracket at the
very start of the class, also behind its negation, stands for itself. -/
def bracketed? (s : List Char) : Option (List Char × List Char) :=
  match (splitLead s).2.dropWhile (· != ']') with
  | _ :: after => some ((splitLead s).1 ++ (splitLead s).2.takeWhile (· != ']'), after)
  | [] => none

/-- What follows a class is shorter than the text of the class and what follows it. -/
theorem length_lt_of_bracketed? {s body after : List Char} (h : bracketed? s = some (body, after)) :
    after.length < s.length := by
  have lead := congrArg List.length (splitLead_append s)
  have drop := (List.dropWhile_sublist (· != ']') (l := (splitLead s).2)).length_le
  unfold bracketed? at h
  split at h
  · rename_i heq
    simp only [Option.some.injEq, Prod.mk.injEq] at h
    simp only [heq, List.length_cons, h.2] at drop
    simp only [List.length_append] at lead
    omega
  · cases h

/-- The parts of a pattern. A bracket that is never closed stands for itself. -/
def parseChars (s : List Char) : List Part :=
  match s with
  | [] => []
  | '*' :: rest => .star :: parseChars rest
  | '?' :: rest => .any :: parseChars rest
  | '[' :: rest =>
    match h : bracketed? rest with
    | some (body, after) =>
      have := length_lt_of_bracketed? h
      classOf body :: parseChars after
    | none => .char '[' :: parseChars rest
  | c :: rest => .char c :: parseChars rest
termination_by s.length

/-- The parts of a pattern. -/
def parse (pattern : String) : List Part :=
  parseChars pattern.toList

/-! ## Matching -/

/-- Whether parts match a whole text. -/
def accepts (parts : List Part) (s : List Char) : Bool :=
  match parts, s with
  | [], s => s.isEmpty
  | .star :: ps, [] => accepts ps []
  | .star :: ps, x :: xs => accepts ps (x :: xs) || accepts (.star :: ps) xs
  | _ :: _, [] => false
  | p :: ps, x :: xs => p.admits x && accepts ps xs
termination_by parts.length + s.length

/-- Whether a pattern matches a text. -/
def fits (pattern s : String) : Bool :=
  accepts (parse pattern) s.toList

/-- Whether one of several patterns matches a text. -/
def fitsAny (patterns : List String) (s : String) : Bool :=
  patterns.any fun pattern => fits pattern s

end CodeAudit.Shell
