import Mathlib
import CodeAudit.Script.Lexer

/-!
# Lines of a text and lines of a program

A text has more ends of lines than a program: a form feed or a line separator ends a line of a text, but stands inside a
line of a program, where only line feeds and carriage returns count. So a line of a program may be several lines of its
text, and the lines below it have greater numbers in the text than in the program.

## Main definitions

* `Script.sourceLines` — the lines of a program.
* `Script.breaks` — how many more lines some lines of a program are in its text.

## Main results

* `Script.linesFrom_cases` — the lines of a text are those of the program, cut further.
* `Script.lines_window` — where unbroken lines of a program stand in its text.
-/

namespace CodeAudit

open List

namespace Text

/-! ## Cutting rows -/

section Cut

variable {α : Type} {p q : α → Bool}

/-- A row is cut into one more part than it has marks. -/
lemma length_splitOnP (p : α → Bool) (xs : List α) : (xs.splitOnP p).length = xs.countP p + 1 := by
  induction xs with
  | nil => simp
  | cons x xs ih =>
    rw [splitOnP_cons_eq_if_modifyHead]
    split_ifs with hx
    · rw [length_cons, ih, countP_cons_of_pos hx]
    · rw [length_modifyHead, ih, countP_cons_of_neg hx]

/-- **A row can be cut at some marks first** and at all of them then. -/
lemma flatMap_splitOnP (h : ∀ x, p x = true → q x = true) (xs : List α) :
    (xs.splitOnP p).flatMap (·.splitOnP q) = xs.splitOnP q := by
  induction xs with
  | nil => simp
  | cons x xs ih =>
    obtain ⟨first, rest, hparts⟩ := exists_cons_of_ne_nil (splitOnP_ne_nil p xs)
    obtain ⟨first', rest', hparts'⟩ := exists_cons_of_ne_nil (splitOnP_ne_nil q first)
    rw [hparts, flatMap_cons, hparts'] at ih
    rw [splitOnP_cons_eq_if_modifyHead, splitOnP_cons_eq_if_modifyHead, ← ih, hparts]
    by_cases hp : p x = true
    · simp [hp, h x hp, hparts']
    · by_cases hq : q x = true
      · simp [hp, hq, splitOnP_cons_eq_if_modifyHead, hparts']
      · simp [hp, hq, splitOnP_cons_eq_if_modifyHead, hparts']

/-- An item that is no mark belongs to the part before it. -/
lemma exists_splitOnP_concat {x : α} (hx : p x = false) (xs : List α) :
    ∃ front last, (xs ++ [x]).splitOnP p = front ++ [last ++ [x]] := by
  induction xs with
  | nil => exact ⟨[], [], by simp [splitOnP_cons_eq_if_modifyHead, hx]⟩
  | cons y xs ih =>
    obtain ⟨front, last, hparts⟩ := ih
    rw [cons_append, splitOnP_cons_eq_if_modifyHead, hparts]
    split_ifs with hy
    · exact ⟨[] :: front, last, rfl⟩
    · cases front with
      | nil => exact ⟨[], y :: last, rfl⟩
      | cons first front => exact ⟨(y :: first) :: front, last, rfl⟩

end Cut

/-! ## Lines -/

variable {ends : Char → Bool}

/-- Whether a text is empty or its last character ends a line. -/
def isClosed (ends : Char → Bool) (text : List Char) : Bool :=
  text.getLast?.all ends

lemma isClosed_append_cons {c : Char} (hc : ends c = true) (front rest : List Char) :
    isClosed ends (front ++ c :: rest) = isClosed ends rest := by
  cases rest with
  | nil => simp [isClosed, hc]
  | cons d rest => simp [isClosed, getLast?_append, getLast?_cons]

lemma linesFrom_cons {c : Char} (hc : c ≠ '\r') (line rest : List Char) :
    linesFrom ends line (c :: rest) =
      if ends c then line.reverse :: linesFrom ends [] rest else linesFrom ends (c :: line) rest := by
  rw [linesFrom]
  intro rest' hcr _
  exact hc hcr

/-- **Lines are what is cut at the ends of lines**, except that no line follows the last end. -/
lemma splitOnPPrepend_eq {text line : List Char} (htext : '\r' ∉ text) (hline : ∀ c ∈ line, ends c = false) :
    text.splitOnPPrepend ends line =
      linesFrom ends line text ++ if isClosed ends (line.reverse ++ text) then [[]] else [] := by
  induction text generalizing line with
  | nil =>
    cases line with
    | nil => rfl
    | cons c line =>
      have hc : ends c = false := hline c mem_cons_self
      simp [linesFrom, isClosed, hc]
  | cons c text ih =>
    obtain ⟨hc, htext⟩ := not_or.mp (mt mem_cons.mpr htext)
    rw [splitOnPPrepend_cons_eq_if, linesFrom_cons (Ne.symm hc)]
    by_cases hend : ends c = true
    · rw [if_pos hend, if_pos hend, isClosed_append_cons hend, cons_append, ← splitOnPPrepend_nil_right,
        ih htext (by simp)]
      rfl
    · rw [if_neg hend, if_neg hend, ih htext fun d hd => ?_]
      · simp
      · rcases mem_cons.mp hd with rfl | hd
        · simpa using hend
        · exact hline d hd

lemma splitOnP_eq {text : List Char} (htext : '\r' ∉ text) :
    text.splitOnP ends = linesFrom ends [] text ++ if isClosed ends text then [[]] else [] :=
  splitOnPPrepend_eq htext (by simp)

lemma cr_not_mem_unifyNewlines (text : List Char) : '\r' ∉ unifyNewlines text := by
  fun_induction unifyNewlines text with
  | case1 => simp
  | case2 rest ih => simpa using ih
  | case3 c rest _ ih =>
    rw [mem_cons, not_or]
    refine ⟨?_, ih⟩
    split_ifs with hc
    · decide
    · rintro rfl
      exact hc rfl

/-- It does not matter how the lines of a text end. -/
lemma linesFrom_unifyNewlines (hlf : ends '\n' = true) (hcr : ends '\r' = true) (line text : List Char) :
    linesFrom ends line (unifyNewlines text) = linesFrom ends line text := by
  fun_induction unifyNewlines text generalizing line with
  | case1 => rfl
  | case2 rest ih => rw [linesFrom_cons (by decide), if_pos hlf, ih, linesFrom]
  | case3 c rest hpair ih =>
    by_cases hc : c = '\r'
    · subst hc
      have hhere : linesFrom ends line ('\r' :: rest) = line.reverse :: linesFrom ends [] rest := by
        rw [linesFrom, if_pos hcr]
        exact hpair
      rw [hhere, if_pos (by decide), linesFrom_cons (by decide), if_pos hlf, ih]
    · rw [if_neg (by simpa using hc), linesFrom_cons hc, linesFrom_cons hc, ih, ih]

/-- **No line has an end of a line in it.** -/
lemma ends_eq_false_of_mem_linesFrom {line text row : List Char} (hline : ∀ c ∈ line, ends c = false)
    (h : row ∈ linesFrom ends line text) : ∀ c ∈ row, ends c = false := by
  have hreverse : ∀ c ∈ line.reverse, ends c = false := fun c hc => hline c (mem_reverse.mp hc)
  fun_induction linesFrom ends line text with
  | case1 => cases h
  | case2 line hne =>
    obtain rfl := mem_singleton.mp h
    exact hreverse
  | case3 line rest ih =>
    rcases mem_cons.mp h with rfl | h
    · exact hreverse
    · exact ih (by simp) h (by simp)
  | case4 line c rest _ hc ih =>
    rcases mem_cons.mp h with rfl | h
    · exact hreverse
    · exact ih (by simp) h (by simp)
  | case5 line c rest _ hc ih =>
    have hlonger : ∀ d ∈ c :: line, ends d = false := by
      intro d hd
      rcases mem_cons.mp hd with rfl | hd
      · simpa using hc
      · exact hline d hd
    exact ih hlonger h fun d hd => hlonger d (mem_reverse.mp hd)

end Text

namespace Script

open Text

variable {source line : String} {rows : List (List Char)} {first last : ℕ}

/-! ## Lines of a program -/

/-- A character that ends a line of a program. -/
def isNewline (c : Char) : Bool :=
  c == '\n' || c == '\r'

/-- **The lines of a program**: only line feeds, carriage returns and both together end them. -/
def sourceLines (source : String) : List String :=
  (linesFrom isNewline [] source.toList).map String.ofList

/-- A line of a program that is one line of its text. -/
def Unbroken (line : String) : Prop :=
  ∀ c ∈ line.toList, isLineEnd c = false

instance : DecidablePred Unbroken := fun line =>
  decidable_of_iff (line.toList.all fun c => !isLineEnd c) (by simp [Unbroken])

/-- How many more lines some lines of a program are in its text. -/
def breaks (lines : List String) : ℕ :=
  (lines.map fun line => line.toList.countP isLineEnd).sum

lemma isNewline_iff {c : Char} : isNewline c = true ↔ c = '\n' ∨ c = '\r' := by
  simp [isNewline]

/-- What ends a line of a program ends a line of its text. -/
lemma isLineEnd_of_isNewline (c : Char) (h : isNewline c = true) : isLineEnd c = true := by
  rcases isNewline_iff.mp h with rfl | rfl <;> decide

lemma unbroken_of_mem_lines (h : line ∈ lines source) : Unbroken line := by
  obtain ⟨row, hrow, rfl⟩ := mem_map.mp h
  unfold Unbroken
  rw [String.toList_ofList]
  exact ends_eq_false_of_mem_linesFrom (by simp) hrow

lemma newline_not_mem_of_mem_sourceLines (h : line ∈ sourceLines source) : '\n' ∉ line.toList := by
  obtain ⟨row, hrow, rfl⟩ := mem_map.mp h
  rw [String.toList_ofList]
  intro hmem
  cases ends_eq_false_of_mem_linesFrom (by simp) hrow _ hmem

/-- Lines with a line feed behind each of them. -/
lemma flatMap_linesFrom {line text : List Char} (htext : '\r' ∉ text) (hline : ∀ c ∈ line, isNewline c = false) :
    (linesFrom isNewline line text).flatMap (· ++ ['\n']) =
      line.reverse ++ text ++ if isClosed isNewline (line.reverse ++ text) then [] else ['\n'] := by
  induction text generalizing line with
  | nil =>
    cases line with
    | nil => rfl
    | cons c line =>
      have hc : isNewline c = false := hline c mem_cons_self
      simp [linesFrom, isClosed, hc]
  | cons c text ih =>
    obtain ⟨hc, hrest⟩ := not_or.mp (mt mem_cons.mpr htext)
    rw [linesFrom_cons (Ne.symm hc)]
    by_cases hend : isNewline c = true
    · obtain rfl : c = '\n' := (isNewline_iff.mp hend).resolve_right (Ne.symm hc)
      rw [if_pos hend, isClosed_append_cons hend, flatMap_cons, ih hrest (by simp), append_assoc,
        append_assoc, append_assoc]
      rfl
    · rw [if_neg hend, ih hrest fun d hd => ?_]
      · simp
      · rcases mem_cons.mp hd with rfl | hd
        · simpa using hend
        · exact hline d hd

/-- **A program is read line by line**, with a line feed behind each line. -/
lemma prepareSource_eq_flatMap (source : String) :
    prepareSource source = (sourceLines source).flatMap fun line => line.toList ++ ['\n'] := by
  have hcr := cr_not_mem_unifyNewlines source.toList
  have hlines : (sourceLines source).flatMap (fun line => line.toList ++ ['\n']) =
      (linesFrom isNewline [] source.toList).flatMap (· ++ ['\n']) := by
    simp [sourceLines, flatMap_map]
  rw [hlines, ← linesFrom_unifyNewlines (by decide) (by decide), flatMap_linesFrom hcr (by simp)]
  unfold prepareSource isClosed
  simp only [reverse_nil, nil_append]
  split
  · rename_i hlast
    simp [hlast, isNewline]
  · rename_i hlast
    simp [hlast]
  · rename_i c hother hlast
    have hopen : isNewline c = false := by
      rw [← Bool.not_eq_true, isNewline_iff, not_or]
      refine ⟨hother, ?_⟩
      rintro rfl
      exact hcr (mem_of_getLast? hlast)
    simp [hlast, hopen]

/-- **The lines of a text are those of the program, cut further**, except that an empty line at the end is missing if the
last line of the program ends with an end of a line of the text. -/
lemma linesFrom_cases (source : List Char) :
    (linesFrom isNewline [] source).flatMap (·.splitOnP isLineEnd) = linesFrom isLineEnd [] source ∨
      (linesFrom isNewline [] source).flatMap (·.splitOnP isLineEnd) = linesFrom isLineEnd [] source ++ [[]] ∧
        ∃ front last, linesFrom isNewline [] source = front ++ [last] ∧ 0 < last.countP isLineEnd := by
  rw [← linesFrom_unifyNewlines (by decide) (by decide) [] source,
    ← linesFrom_unifyNewlines (by decide) (by decide) [] source]
  have hcr := cr_not_mem_unifyNewlines source
  generalize unifyNewlines source = text at hcr ⊢
  -- both ways to cut, with the empty rests
  have hcut : (linesFrom isNewline [] text).flatMap (·.splitOnP isLineEnd) ++ (if isClosed isNewline text then [[]] else []) =
      linesFrom isLineEnd [] text ++ if isClosed isLineEnd text then [[]] else [] := by
    rw [← splitOnP_eq hcr, ← flatMap_splitOnP isLineEnd_of_isNewline, splitOnP_eq hcr, flatMap_append]
    split_ifs <;> simp
  cases hlast : text.getLast? with
  | none =>
    obtain rfl := getLast?_eq_none_iff.mp hlast
    exact .inl rfl
  | some c =>
    have hclosed : ∀ ends, isClosed ends text = ends c := by simp [isClosed, hlast]
    rw [hclosed, hclosed] at hcut
    by_cases hnewline : isNewline c = true
    · rw [if_pos hnewline, if_pos (isLineEnd_of_isNewline c hnewline)] at hcut
      exact .inl (append_cancel_right hcut)
    · rw [if_neg hnewline, append_nil] at hcut
      by_cases hend : isLineEnd c = true
      · rw [if_pos hend] at hcut
        refine .inr ⟨hcut, ?_⟩
        have hrows : text.splitOnP isNewline = linesFrom isNewline [] text := by
          rw [splitOnP_eq hcr, hclosed, if_neg hnewline, append_nil]
        obtain ⟨front, last, hconcat⟩ := exists_splitOnP_concat (by simpa using hnewline) text.dropLast
        rw [dropLast_append_getLast? c hlast, hrows] at hconcat
        refine ⟨front, last ++ [c], hconcat, ?_⟩
        rw [countP_pos_iff]
        exact ⟨c, by simp, hend⟩
      · rw [if_neg hend, append_nil] at hcut
        exact .inl hcut

/-! ## Where lines stand -/

lemma breaks_append (front back : List String) : breaks (front ++ back) = breaks front + breaks back := by
  simp [breaks]

lemma breaks_cons (line : String) (lines : List String) :
    breaks (line :: lines) = line.toList.countP isLineEnd + breaks lines := by
  simp [breaks]

lemma breaks_take_le (lines : List String) (count : ℕ) : breaks (lines.take count) ≤ breaks lines := by
  conv_rhs => rw [← take_append_drop count lines, breaks_append]
  omega

lemma breaks_eq_zero {lines : List String} (h : ∀ line ∈ lines, Unbroken line) : breaks lines = 0 := by
  rw [breaks, sum_eq_zero_iff]
  intro count hcount
  obtain ⟨line, hline, rfl⟩ := mem_map.mp hcount
  rw [countP_eq_zero]
  intro c hc
  simp [h line hline c hc]

/-- Some lines of a program are as many lines more in its text as they have breaks. -/
lemma length_flatMap_splitOnP (rows : List (List Char)) :
    (rows.flatMap (·.splitOnP isLineEnd)).length = rows.length + breaks (rows.map String.ofList) := by
  induction rows with
  | nil => rfl
  | cons row rows ih =>
    rw [flatMap_cons, length_append, ih, length_splitOnP, map_cons, breaks_cons, length_cons,
      String.toList_ofList]
    omega

/-- Unbroken lines of a program are lines of its text. -/
lemma take_flatMap_splitOnP {count : ℕ} (h : ∀ row ∈ rows.take count, ∀ c ∈ row, isLineEnd c = false) :
    (rows.flatMap (·.splitOnP isLineEnd)).take count = rows.take count := by
  induction rows generalizing count with
  | nil => simp
  | cons row rows ih =>
    cases count with
    | zero => rfl
    | succ count =>
      rw [take_succ_cons] at h ⊢
      rw [flatMap_cons, splitOnP_eq_singleton (h row mem_cons_self), singleton_append,
        take_succ_cons, ih fun row' hrow' => h row' (mem_cons_of_mem _ hrow')]

/-- Lines of a program stand below others in its text by as many lines more as these have breaks. -/
lemma drop_flatMap_splitOnP (rows : List (List Char)) (first : ℕ) :
    (rows.flatMap (·.splitOnP isLineEnd)).drop (first + breaks ((rows.take first).map String.ofList)) =
      (rows.drop first).flatMap (·.splitOnP isLineEnd) := by
  by_cases hfirst : first ≤ rows.length
  · have hlength : ((rows.take first).flatMap (·.splitOnP isLineEnd)).length =
        first + breaks ((rows.take first).map String.ofList) := by
      rw [length_flatMap_splitOnP, length_take, min_eq_left hfirst]
    conv_lhs => rw [← take_append_drop first rows, flatMap_append]
    rw [take_append_drop, ← hlength, drop_left]
  · have hall : rows.take first = rows := take_of_length_le (by omega)
    rw [hall, drop_of_length_le (l := rows) (by omega), drop_of_length_le]
    · rfl
    · rw [length_flatMap_splitOnP]
      omega

/-- Unbroken rows stand as many places below their numbers, once all rows are cut, as the rows above them have breaks. -/
lemma window_flatMap_splitOnP (h : ∀ row ∈ (rows.take last).drop first, ∀ c ∈ row, isLineEnd c = false) :
    (((rows.flatMap (·.splitOnP isLineEnd)).drop (breaks ((rows.take first).map String.ofList))).take last).drop first =
      (rows.take last).drop first := by
  rw [drop_take] at h ⊢
  rw [drop_drop, Nat.add_comm, drop_flatMap_splitOnP, take_flatMap_splitOnP h, drop_take]

/-- The same among the lines of a text: the empty line that may be missing there belongs to a broken row. -/
lemma window_linesFrom {source : List Char}
    (h : ∀ row ∈ ((linesFrom isNewline [] source).take last).drop first, ∀ c ∈ row, isLineEnd c = false) :
    (((linesFrom isLineEnd [] source).drop (breaks (((linesFrom isNewline [] source).take first).map String.ofList))).take
      last).drop first = ((linesFrom isNewline [] source).take last).drop first := by
  have hwindow := window_flatMap_splitOnP h
  rcases linesFrom_cases source with hall | ⟨hall, front, broken, hconcat, hbroken⟩
  · rwa [hall] at hwindow
  · have hlength := length_flatMap_splitOnP (linesFrom isNewline [] source)
    rw [hall, length_append, length_singleton] at hlength
    have hshift := breaks_take_le ((linesFrom isNewline [] source).map String.ofList) first
    rw [← map_take] at hshift
    generalize linesFrom isNewline [] source = rows at *
    by_cases hlast : last < rows.length
    · -- the missing line stands below these
      rwa [hall, drop_append_of_le_length (by omega), take_append_of_le_length] at hwindow
      rw [length_drop]
      omega
    · -- the last row is broken and so not among these, which means that there are none
      have hfirst : rows.length ≤ first := by
        by_contra hfirst
        have hmem : broken ∈ (rows.take last).drop first := by
          rw [take_of_length_le (by omega), hconcat, drop_append_of_le_length]
          · exact mem_append_right _ (mem_singleton_self _)
          · rw [hconcat, length_append, length_singleton] at hfirst
            omega
        obtain ⟨c, hc, hend⟩ := countP_pos_iff.mp hbroken
        rw [h broken hmem c hc] at hend
        cases hend
      rw [take_of_length_le hfirst] at hwindow ⊢
      rw [drop_of_length_le (l := rows.take last), drop_of_length_le]
      · rw [length_take, length_drop]
        omega
      · rw [length_take]
        omega

/-- **Where unbroken lines of a program stand in its text**: as many lines below their numbers as the lines above them have
breaks. -/
lemma lines_window (h : ∀ line ∈ ((sourceLines source).take last).drop first, Unbroken line) :
    (((lines source).drop (breaks ((sourceLines source).take first))).take last).drop first =
      ((sourceLines source).take last).drop first := by
  have hrows : ∀ row ∈ ((linesFrom isNewline [] source.toList).take last).drop first, ∀ c ∈ row, isLineEnd c = false := by
    intro row hrow c hc
    have hline : String.ofList row ∈ ((sourceLines source).take last).drop first := by
      rw [sourceLines, ← map_take, ← map_drop]
      exact mem_map_of_mem hrow
    exact h _ hline c (by rwa [String.toList_ofList])
  have hwindow := congrArg (List.map String.ofList) (window_linesFrom hrows)
  simpa only [lines, sourceLines, map_take, map_drop] using hwindow

end Script

end CodeAudit
