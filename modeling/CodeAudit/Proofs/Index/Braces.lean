import CodeAudit.Index.Chunker
import CodeAudit.Proofs.Files.Path
import CodeAudit.Proofs.Text.Lines

/-!
# Extents of functions in languages with braces

A function is taken to end in the line in which as many braces are closed as were opened since the first brace was opened.
This module gives that line in closed form and tells the lines that the chunks of a source cover.

## Main definitions

* `Chunker.Ends` — where a function ends.
* `Chunker.Spans` — the lines that the chunk of a function covers.

## Main results

* `Chunker.ends_functionEnd` — the end of a function in closed form.
* `Chunker.functions_cover_lines` — the chunks of functions cover the lines of functions in their order.
-/

namespace CodeAudit.Chunker

open CodeAudit.Text List

variable {lines : List String} {start first : ℕ}

variable {depth : ℤ} {line source : String} {n : ℕ}

/-! ## Braces of a stretch of lines -/

/-- How many more braces are opened than closed from one line to another, both included. -/
def balance (lines : List String) (first last : ℕ) : ℤ :=
  ((((lines.take (last + 1)).drop first).flatMap String.toList).count '\x7b' : ℤ) -
    (((lines.take (last + 1)).drop first).flatMap String.toList).count '\x7d'

/-- The lines from one on that open a brace. -/
def openings (lines : List String) (start : ℕ) : Set ℕ :=
  {k | start ≤ k ∧ ∃ line ∈ lines[k]?, '\x7b' ∈ line.toList}

/-- The lines from one on up to which no more braces are opened than closed. -/
def closings (lines : List String) (first : ℕ) : Set ℕ :=
  {i | first ≤ i ∧ i < lines.length ∧ balance lines first i ≤ 0}

/-- **Where a function ends.** If the braces are closed that were opened since the first one, it ends in the first line in
which they are. Otherwise it has eighty lines, or as many as there are. -/
structure Ends (lines : List String) (start last : ℕ) : Prop where
  lt : start + 1 ≤ last
  le : last ≤ lines.length
  closed : ∀ first, IsLeast (openings lines start) first → (closings lines first).Nonempty →
    ∃ i, IsLeast (closings lines first) i ∧ last = i + 1
  unclosed : (∀ first, IsLeast (openings lines start) first → closings lines first = ∅) →
    last = min (start + 80) lines.length

/-- The balance of lines is the sum of the descents of each of them. -/
lemma balance_eq_sum (lines : List String) (first last : ℕ) :
    balance lines first last = (((lines.drop first).take (last + 1 - first)).map descent).sum := by
  rw [balance, drop_take]
  generalize (lines.drop first).take (last + 1 - first) = stretch
  induction stretch with
  | nil => rfl
  | cons line stretch ih =>
    rw [map_cons, sum_cons, ← ih, descent, flatMap_cons, count_append, count_append]
    push_cast
    ring

/-! ## The search for the closing brace -/

/-- The numbers of lines after which the braces are closed that were open before. -/
def closingCounts (depth : ℤ) (lines : List String) : Set ℕ :=
  {n | 0 < n ∧ n ≤ lines.length ∧ depth + ((lines.take n).map descent).sum ≤ 0}

/-- A number of lines closes the braces if the first line does, or if the lines behind it do. -/
lemma succ_mem_closingCounts_cons {rest : List String} : n + 1 ∈ closingCounts depth (line :: rest) ↔
      (n = 0 ∧ depth + descent line ≤ 0) ∨ n ∈ closingCounts (depth + descent line) rest := by
  simp only [closingCounts, Set.mem_ofPred_eq, take_succ_cons, map_cons, sum_cons, length_cons]
  cases n with
  | zero => simp
  | succ n =>
    have hassoc := add_assoc depth (descent line) ((rest.take (n + 1)).map descent).sum
    omega

/-- Inside a function a line closes the braces, or the search goes on behind it. -/
lemma closing?_inside_cons (depth : ℤ) (line : String) (rest : List String) :
    closing? true depth (line :: rest) =
      if depth + descent line ≤ 0 then some 1 else (closing? true (depth + descent line) rest).map (· + 1) := by
  simp [closing?]

/-- **Inside a function the least number of lines is found** after which the braces are closed.

**Proof sketch.** Induction on the lines. If the first line closes the braces, one line is the least number. Otherwise the
least number is one more than that for the lines behind it, from the depth at its end. -/
lemma closing?_eq_some_iff :
    closing? true depth lines = some n ↔ IsLeast (closingCounts depth lines) n := by
  induction lines generalizing depth n with
  | nil =>
    constructor
    · intro h
      cases h
    · intro h
      obtain ⟨hpos, hle, -⟩ := h.1
      exact absurd hpos (Nat.not_lt.mpr hle)
  | cons line rest ih =>
    rw [closing?_inside_cons]
    split_ifs with hclosed
    · have hone : 1 ∈ closingCounts depth (line :: rest) := succ_mem_closingCounts_cons.mpr (.inl ⟨rfl, hclosed⟩)
      rw [Option.some_inj]
      constructor
      · rintro rfl
        exact ⟨hone, fun m hm => hm.1⟩
      · intro h
        exact le_antisymm h.1.1 (h.2 hone)
    · -- no number below two closes the braces, so those for the rest are the ones that count
      have hmem : ∀ m, m + 1 ∈ closingCounts depth (line :: rest) ↔ m ∈ closingCounts (depth + descent line) rest := by
        intro m
        rw [succ_mem_closingCounts_cons, or_iff_right fun h => hclosed h.2]
      rw [Option.map_eq_some_iff]
      constructor
      · rintro ⟨m, hm, rfl⟩
        have hleast := ih.mp hm
        refine ⟨(hmem m).mpr hleast.1, fun k hk => ?_⟩
        obtain ⟨k, rfl⟩ := Nat.exists_eq_add_of_lt hk.1
        rw [Nat.zero_add] at hk ⊢
        exact Nat.succ_le_succ (hleast.2 ((hmem k).mp hk))
      · intro h
        obtain ⟨m, rfl⟩ := Nat.exists_eq_add_of_lt h.1.1
        rw [Nat.zero_add] at h ⊢
        refine ⟨m, ih.mpr ⟨(hmem m).mp h.1, fun k hk => ?_⟩, rfl⟩
        exact Nat.le_of_succ_le_succ (h.2 ((hmem k).mpr hk))

/-- The search passes over lines before the first brace. -/
lemma closing?_append {front : List String} (h : ∀ line ∈ front, '\x7b' ∉ line.toList) (depth : ℤ) (rest : List String) :
    closing? false depth (front ++ rest) = (closing? false depth rest).map (· + front.length) := by
  induction front with
  | nil => simp
  | cons line front ih =>
    obtain ⟨hline, h⟩ := forall_mem_cons.mp h
    have hstep : closing? false depth (line :: (front ++ rest)) = (closing? false depth (front ++ rest)).map (· + 1) := by
      simp [closing?, hline]
    rw [cons_append, hstep, ih h, Option.map_map]
    rfl

/-- The first line with a brace is inside the function. -/
lemma closing?_of_opening (h : '\x7b' ∈ line.toList) (depth : ℤ) (rest : List String) :
    closing? false depth (line :: rest) = closing? true depth (line :: rest) := by
  simp [closing?, h]

/-- What is found is a number of lines. -/
lemma closing?_bounds {inside : Bool}
    (h : closing? inside depth lines = some n) : 0 < n ∧ n ≤ lines.length := by
  induction lines generalizing inside depth n with
  | nil => cases h
  | cons line rest ih =>
    rw [closing?] at h
    dsimp only at h
    split_ifs at h with hinside hclosed
    · obtain rfl := Option.some.inj h
      simp
    all_goals
      obtain ⟨m, hm, rfl⟩ := Option.map_eq_some_iff.mp h
      have hbounds := ih hm
      rw [length_cons]
      omega

/-! ## The end of a function -/

/-- Without a brace that is opened nothing is found. -/
lemma closing?_of_no_opening (h : openings lines start = ∅) : closing? false 0 (lines.drop start) = none := by
  have hnone : ∀ line ∈ lines.drop start, '\x7b' ∉ line.toList := by
    intro line hline hbrace
    obtain ⟨k, hk⟩ := mem_iff_getElem?.mp hline
    rw [getElem?_drop] at hk
    have hmem : start + k ∈ openings lines start := ⟨Nat.le_add_right _ _, line, hk, hbrace⟩
    simp [h] at hmem
  simpa [closing?] using closing?_append hnone 0 []

/-- From the first line that opens a brace on, the search is inside the function. -/
lemma closing?_of_first (h : IsLeast (openings lines start) first) :
    closing? false 0 (lines.drop start) = (closing? true 0 (lines.drop first)).map (· + (first - start)) := by
  obtain ⟨⟨hle, line, hline, hbrace⟩, hleast⟩ := h
  have hfront : ∀ l ∈ (lines.drop start).take (first - start), '\x7b' ∉ l.toList := by
    intro l hl hopen
    obtain ⟨k, hk⟩ := List.mem_iff_getElem?.mp hl
    rw [List.getElem?_take, List.getElem?_drop] at hk
    split_ifs at hk with hlt
    have hbefore := hleast ⟨Nat.le_add_right start k, l, hk, hopen⟩
    omega
  have hsplit : lines.drop start = (lines.drop start).take (first - start) ++ lines.drop first := by
    conv_lhs => rw [← List.take_append_drop (first - start) (lines.drop start)]
    rw [List.drop_drop, Nat.add_sub_cancel' hle]
  have hrest : lines.drop first = line :: lines.drop (first + 1) := by
    rw [List.drop_eq_getElem?_toList_append, hline]
    rfl
  have hlength : ((lines.drop start).take (first - start)).length = first - start := by
    have hlt := (List.getElem?_eq_some_iff.mp hline).1
    rw [List.length_take, List.length_drop]
    omega
  rw [hsplit, closing?_append hfront, hlength, hrest, closing?_of_opening hbrace]

/-- The lines that may close a function are those up to which the search counts. -/
lemma mem_closings_iff (hfirst : first ≤ lines.length) :
    n + 1 ∈ closingCounts 0 (lines.drop first) ↔ first + n ∈ closings lines first := by
  simp only [closingCounts, closings, Set.mem_ofPred_eq, balance_eq_sum, length_drop, zero_add]
  rw [show first + n + 1 - first = n + 1 by omega]
  omega

/-- The search from the first line that opens a brace on finds the first one that closes the function. -/
lemma exists_closing? (hfirst : IsLeast (openings lines start) first) (h : (closings lines first).Nonempty) :
    ∃ i, IsLeast (closings lines first) i ∧ closing? false 0 (lines.drop start) = some (i + 1 - start) := by
  obtain ⟨i, hi⟩ : ∃ i, IsLeast (closings lines first) i := ⟨_, isLeast_csInf h⟩
  obtain ⟨hle, line, hline, -⟩ := hfirst.1
  have hlength : first ≤ lines.length := (List.getElem?_eq_some_iff.mp hline).1.le
  obtain ⟨n, rfl⟩ := Nat.exists_eq_add_of_le hi.1.1
  have hleast : IsLeast (closingCounts 0 (lines.drop first)) (n + 1) := by
    refine ⟨(mem_closings_iff hlength).mpr hi.1, fun m hm => ?_⟩
    obtain ⟨m, rfl⟩ := Nat.exists_eq_add_of_lt hm.1
    rw [Nat.zero_add] at hm ⊢
    have := hi.2 ((mem_closings_iff hlength).mp hm)
    omega
  refine ⟨first + n, hi, ?_⟩
  rw [closing?_of_first hfirst, closing?_eq_some_iff.mpr hleast, Option.map_some, Option.some_inj]
  omega

/-- Without a line that closes the function nothing is found. -/
lemma closing?_of_no_closing (hfirst : IsLeast (openings lines start) first) (h : closings lines first = ∅) :
    closing? false 0 (lines.drop start) = none := by
  obtain ⟨-, line, hline, -⟩ := hfirst.1
  have hlength : first ≤ lines.length := (List.getElem?_eq_some_iff.mp hline).1.le
  rw [closing?_of_first hfirst, Option.map_eq_none_iff, Option.eq_none_iff_forall_ne_some]
  intro n hn
  have hmem := (closing?_eq_some_iff.mp hn).1
  obtain ⟨n, rfl⟩ := Nat.exists_eq_add_of_lt hmem.1
  rw [Nat.zero_add, mem_closings_iff hlength, h] at hmem
  exact hmem

/-- **The end of a function in closed form.** -/
lemma ends_functionEnd (h : start < lines.length) : Ends lines start (functionEnd lines start) := by
  have hfound : ∀ n, closing? false 0 (lines.drop start) = some n → functionEnd lines start = start + n := by
    intro n hn
    rw [functionEnd, hn]
  have hmissed : closing? false 0 (lines.drop start) = none →
      functionEnd lines start = min (start + 80) lines.length := by
    intro hn
    rw [functionEnd, hn]
  have hbounds : start + 1 ≤ functionEnd lines start ∧ functionEnd lines start ≤ lines.length := by
    cases hclosing : closing? false 0 (lines.drop start) with
    | none =>
      rw [hmissed hclosing]
      omega
    | some n =>
      have hn := closing?_bounds hclosing
      rw [length_drop] at hn
      rw [hfound n hclosing]
      omega
  refine ⟨hbounds.1, hbounds.2, fun first hfirst hclosings => ?_, fun hunclosed => ?_⟩
  · obtain ⟨i, hi, hclosing⟩ := exists_closing? hfirst hclosings
    refine ⟨i, hi, ?_⟩
    have hle := hfirst.1.1
    have hle' := hi.1.1
    rw [hfound _ hclosing]
    omega
  · apply hmissed
    rcases (openings lines start).eq_empty_or_nonempty with hnone | hsome
    · exact closing?_of_no_opening hnone
    · have hfirst := isLeast_csInf hsome
      exact closing?_of_no_closing hfirst (hunclosed _ hfirst)

/-! ## Chunks of functions -/

/-- **The lines that the chunk of a function covers**: from the line that begins the function to the one in which it
ends. -/
structure Spans (lines : List String) (start : ℕ) (chunk : Chunk) : Prop where
  name : ∃ line ∈ lines[start]?, begunFunction? line = some chunk.name
  firstLine : chunk.firstLine = .int (start + 1 : ℕ)
  lastLine : ∃ last : ℕ, chunk.lastLine = .int last ∧ Ends lines start last ∧
    chunk.content = joinWith "\n" ((lines.take last).drop start) ∧
    splitOn '\n' chunk.content = (lines.take last).drop start

/-- The lines of a text have no ends in them. -/
lemma newline_not_mem_of_mem_lines (h : line ∈ Text.lines source) : '\n' ∉ line.toList := by
  intro hmem
  have hend := Script.unbroken_of_mem_lines h '\n' hmem
  cases hend

/-- The chunk of the function that a line begins covers its lines. -/
lemma spans_bracedChunk {file language name : String} (hline : (Text.lines source)[start]? = some line)
    (hname : begunFunction? line = some name) :
    Spans (Text.lines source) start (bracedChunk file language (Text.lines source) start name) := by
  have hends := ends_functionEnd (List.getElem?_eq_some_iff.mp hline).1
  refine ⟨⟨line, hline, hname⟩, rfl, _, rfl, hends, rfl, splitOn_intercalate (by decide) _ ?_ fun row hrow => ?_⟩
  · have hlt := hends.lt
    have hle := hends.le
    rw [Nat.add_sub_cancel, ← List.length_pos_iff, List.length_drop, List.length_take]
    omega
  · exact newline_not_mem_of_mem_lines (List.mem_of_mem_take (List.mem_of_mem_drop hrow))

/-- The chunks of functions among those of a source. -/
lemma filter_ofBraces (split : Splitter) (file source language : String) :
    (ofBraces split file source language).filter (fun chunk => chunk.kind = .function) =
      (Text.lines source).zipIdx.filterMap fun x =>
        (begunFunction? x.1).map (bracedChunk file language (Text.lines source) x.2) := by
  unfold ofBraces
  simp only
  split_ifs with hempty
  · rw [List.isEmpty_iff.mp hempty, List.filter_eq_nil_iff]
    intro chunk hchunk
    obtain ⟨x, -, rfl⟩ := List.mem_map.mp hchunk
    simp
  · rw [List.filter_eq_self]
    intro chunk hchunk
    obtain ⟨x, -, hx⟩ := List.mem_filterMap.mp hchunk
    obtain ⟨name, -, rfl⟩ := Option.map_eq_some_iff.mp hx
    simp [bracedChunk]

/-- The lines that begin a function, counted from zero. -/
def starts (lines : List String) : List ℕ :=
  (lines.zipIdx.filter fun x => (begunFunction? x.1).isSome).map Prod.snd

lemma pairwise_starts (lines : List String) : (starts lines).Pairwise (· < ·) := by
  have hrange : (lines.zipIdx.map Prod.snd).Pairwise (· < ·) := by
    rw [List.zipIdx_map_snd]
    exact List.pairwise_lt_range'
  exact hrange.sublist (List.filter_sublist.map Prod.snd)

lemma mem_starts_iff {i : ℕ} : i ∈ starts lines ↔ ∃ line ∈ lines[i]?, (begunFunction? line).isSome := by
  simp only [starts, List.mem_map, List.mem_filter, Prod.exists, List.mem_zipIdx_iff_getElem?]
  constructor
  · rintro ⟨line, k, ⟨hline, hbegins⟩, rfl⟩
    exact ⟨line, hline, hbegins⟩
  · rintro ⟨line, hline, hbegins⟩
    exact ⟨line, i, ⟨hline, hbegins⟩, rfl⟩

/-- The chunks of functions are those of the lines that begin one, in their order. -/
lemma forall₂_spans (split : Splitter) (file source language : String) :
    List.Forall₂ (Spans (Text.lines source)) (starts (Text.lines source))
      ((ofBraces split file source language).filter fun chunk => chunk.kind = .function) := by
  have hchunks := Sequence.forall₂_filterMap (fun x : String × ℕ =>
    (begunFunction? x.1).map (bracedChunk file language (Text.lines source) x.2)) (Text.lines source).zipIdx
  simp only [Option.isSome_map] at hchunks
  obtain ⟨hlength, hpairs⟩ := List.forall₂_iff_zip.mp hchunks
  rw [filter_ofBraces, starts, List.forall₂_map_left_iff]
  refine List.forall₂_iff_zip.mpr ⟨hlength, fun {x chunk} hpair => ?_⟩
  obtain ⟨name, hname, rfl⟩ := Option.map_eq_some_iff.mp (hpairs hpair)
  have hx := List.mem_of_mem_filter (List.of_mem_zip hpair).1
  exact spans_bracedChunk (List.mem_zipIdx_iff_getElem?.mp hx) hname

/-- **The chunks of functions cover the lines of functions.** In every row of lines, a function ends behind the line that
begins it: in the first line in which the braces are closed that were opened since the first one, or, if there is no such
line, eighty lines below or at the end (`Ends`). The chunks of functions of a source stand for the lines that begin a
function, one for each of them, in strictly rising order; and each covers exactly the lines from the one that begins the
function to the one in which it ends.

**Proof sketch.** The search passes over the lines before the first brace (`closing?_of_first`) and then finds the least
number of lines after which the braces are closed (`closing?_eq_some_iff`). -/
theorem functions_cover_lines (split : Splitter) (file source language : String) :
    (∀ (lines : List String) (start : ℕ), start < lines.length → Ends lines start (functionEnd lines start)) ∧
      (starts (Text.lines source)).Pairwise (· < ·) ∧
      (∀ i, i ∈ starts (Text.lines source) ↔ ∃ line ∈ (Text.lines source)[i]?, (begunFunction? line).isSome) ∧
      List.Forall₂ (Spans (Text.lines source)) (starts (Text.lines source))
        ((ofBraces split file source language).filter fun chunk => chunk.kind = .function) :=
  ⟨fun _ _ h => ends_functionEnd h, pairwise_starts _, fun _ => mem_starts_iff, forall₂_spans split file source language⟩

/-- A function whose braces are closed in its third line, and one without braces. -/
def twoFunctions : String := "function f() \x7b\n  if (x) \x7b \x7d\n\x7d\nfunction g()\n"

/-- The first function ends with its last brace, the second one with the text. -/
theorem functions_cover_twoFunctions :
    Ends (Text.lines twoFunctions) 0 (functionEnd (Text.lines twoFunctions) 0) ∧
    ∃ f g, (ofBraces whole "a.js" twoFunctions "javascript").filter (fun chunk => chunk.kind = .function) = [f, g] ∧
      f.firstLine = .int 1 ∧ f.lastLine = .int 3 ∧ f.content = "function f() \x7b\n  if (x) \x7b \x7d\n\x7d" ∧
      g.firstLine = .int 4 ∧ g.lastLine = .int 4 := by
  have hlines : Text.lines twoFunctions = ["function f() \x7b", "  if (x) \x7b \x7d", "\x7d", "function g()"] := by
    decide +kernel
  have hstarts : starts (Text.lines twoFunctions) = [0, 3] := by decide +kernel
  obtain ⟨hends, -, -, hchunks⟩ := functions_cover_lines whole "a.js" twoFunctions "javascript"
  refine ⟨hends _ 0 (by rw [hlines]; decide), ?_⟩
  rw [hstarts, List.forall₂_cons_left_iff] at hchunks
  obtain ⟨f, rest, hf, hchunks, hfunctions⟩ := hchunks
  obtain ⟨g, rest', hg, hchunks, hrest⟩ := List.forall₂_cons_left_iff.mp hchunks
  obtain rfl := List.forall₂_nil_left_iff.mp hchunks
  rw [hlines] at hf hg
  obtain ⟨last, hlast, hend, hcontent, -⟩ := hf.lastLine
  obtain ⟨last', hlast', hend', -, -⟩ := hg.lastLine
  have hthree : last = 3 := by
    have htwo : 2 ∈ closings ["function f() \x7b", "  if (x) \x7b \x7d", "\x7d", "function g()"] 0 :=
      ⟨by decide, by decide, by decide +kernel⟩
    obtain ⟨i, ⟨⟨-, -, hbalance⟩, hleast⟩, rfl⟩ :=
      hend.closed 0 ⟨⟨le_rfl, _, rfl, by decide⟩, fun _ h => h.1⟩ ⟨2, htwo⟩
    have hi : i ≤ 2 := hleast htwo
    interval_cases i
    · exact absurd hbalance (by decide +kernel)
    · exact absurd hbalance (by decide +kernel)
    · rfl
  have hfour : last' = 4 := by
    have hlt := hend'.lt
    have hle := hend'.le
    simp only [List.length_cons, List.length_nil] at hle
    omega
  subst hthree hfour
  refine ⟨f, g, by rw [hfunctions, hrest], hf.firstLine, hlast, ?_, hg.firstLine, hlast'⟩
  rw [hcontent]
  decide +kernel

end CodeAudit.Chunker
