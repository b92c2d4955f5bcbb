import CodeAudit.Index.Chunker
import CodeAudit.Proofs.Text.Case

/-!
# Comments above functions

The chunk of a function in a language with braces takes the comment above the function along. It is looked for upwards,
past blank lines and line comments, to a line that closes a comment, and from there to a line above that opens one. A
comment of a single line opens in the line that closes it, so the search goes past it. This module tells which lines are
taken, and when these are the lines of the comment of the function.

## Main definitions

* `Chunker.openers`, `Chunker.closers` — the lines that open and close comments.
* `Chunker.ClosedAt` — the line in which the comment of a function ends.

## Main results

* `Chunker.doc_bracedChunk` — the lines that are taken for the comment of a function.
* `Chunker.doc_eq_own_comment_iff` — when they are those of the comment.
-/

namespace CodeAudit.Chunker

open CodeAudit.Text List

variable {lines : List String} {start c : ℕ}

variable {line : String} {bound b b' m n k d : ℕ}

/-! ## Lines of comments -/

/-- A line that is passed over above a function: a blank one or a line comment. -/
def IsPassed (line : String) : Prop :=
  trim line = "" ∨ startsWith (trim line) "//" = true

instance : DecidablePred IsPassed := fun _ => inferInstanceAs (Decidable (_ ∨ _))

/-- The lines above a place that open a comment. -/
def openers (lines : List String) (bound : ℕ) : Set ℕ :=
  {k | k < bound ∧ ∃ line ∈ lines[k]?, startsWith (trim line) "/**" = true}

/-- The lines above a place that close a comment. -/
def closers (lines : List String) (bound : ℕ) : Set ℕ :=
  {k | k < bound ∧ ∃ line ∈ lines[k]?, endsWith (trim line) "*/" = true}

/-- The nearest line above a place that opens a comment; the first line if there is none. -/
def OpenedAt (lines : List String) (bound b : ℕ) : Prop :=
  IsGreatest (openers lines bound) b ∨ openers lines bound = ∅ ∧ b = 0

/-- **The line in which the comment of a function ends**: the first one above the function that is not passed over, if it
closes a comment. -/
structure ClosedAt (lines : List String) (start c : ℕ) : Prop where
  closes : c ∈ closers lines start
  not_passed : ∀ line ∈ lines[c]?, ¬ IsPassed line
  passed : ∀ k, c < k → k < start → ∃ line ∈ lines[k]?, IsPassed line

/-- The text of the lines from one to another, without blanks at their ends. -/
def stripped (lines : List String) (first last : ℕ) : String :=
  joinWith "\n" (((lines.take (last + 1)).drop first).map trim)

/-- A line that is passed over opens no comment. -/
lemma not_opens_of_isPassed (h : IsPassed line) : startsWith (trim line) "/**" = false := by
  rw [Bool.eq_false_iff, ne_eq, startsWith_iff]
  intro hopens
  rcases h with hblank | hslashes
  · rw [hblank] at hopens
    exact absurd hopens (by decide)
  · rcases prefix_or_prefix_of_prefix hopens (startsWith_iff.mp hslashes) with hprefix | hprefix
    · exact absurd hprefix (by decide)
    · exact absurd hprefix (by decide)

/-- At most one line is the nearest one that opens a comment. -/
lemma OpenedAt.unique (h : OpenedAt lines bound b) (h' : OpenedAt lines bound b') : b = b' := by
  rcases h with h | ⟨hnone, rfl⟩
  · rcases h' with h' | ⟨hnone', -⟩
    · exact h.unique h'
    · exact absurd h.1 (by simp [hnone'])
  · rcases h' with h' | ⟨-, rfl⟩
    · exact absurd h'.1 (by simp [hnone])
    · rfl

/-- A set of numbers with a bound that is not empty has a greatest one. -/
private lemma exists_isGreatest {s : Set ℕ} (h : s.Nonempty) (hbound : ∀ k ∈ s, k < bound) :
    ∃ n, IsGreatest s n := by
  have hbounded : BddAbove s := ⟨bound, fun k hk => (hbound k hk).le⟩
  exact ⟨sSup s, Nat.sSup_mem h hbounded, fun k hk => le_csSup hbounded hk⟩

lemma exists_openedAt (lines : List String) (bound : ℕ) : ∃ b, OpenedAt lines bound b := by
  rcases (openers lines bound).eq_empty_or_nonempty with hnone | hsome
  · exact ⟨0, .inr ⟨hnone, rfl⟩⟩
  · obtain ⟨b, hb⟩ := exists_isGreatest hsome fun k hk => hk.1
    exact ⟨b, .inl hb⟩

/-! ## The search for a comment -/

/-- The search passes over blank lines and line comments that close no comment. -/
lemma commentAbove?_append {front : List String} (hpassed : ∀ line ∈ front, IsPassed line)
    (hcloses : ∀ line ∈ front, endsWith (trim line) "*/" = false) (above : List String) :
    commentAbove? (front.map trim ++ above) = commentAbove? above := by
  induction front with
  | nil => rfl
  | cons line front ih =>
    obtain ⟨hline, hpassed⟩ := forall_mem_cons.mp hpassed
    obtain ⟨hends, hcloses⟩ := forall_mem_cons.mp hcloses
    have hskip : ((trim line).isEmpty || startsWith (trim line) "//") = true := by
      rw [Bool.or_eq_true, String.isEmpty_iff]
      exact hline
    rw [map_cons, cons_append, commentAbove?]
    simp only [hends, hskip, if_true, Bool.false_eq_true, if_false]
    exact ih hpassed hcloses

/-- From a line that closes a comment the search goes up to one that opens one, or to the top. -/
lemma commentAbove?_of_closes {row : String} (hrow : endsWith row "*/" = true) {stretch above : List String}
    (hstretch : ∀ s ∈ stretch, startsWith s "/**" = false)
    (habove : above = [] ∨ ∃ opener rest, above = opener :: rest ∧ startsWith opener "/**" = true) :
    commentAbove? (row :: (stretch ++ above)) = some (joinWith "\n" (row :: (stretch ++ above.take 1)).reverse) := by
  have hpasses : ∀ s ∈ stretch, (!startsWith s "/**") = true := by
    intro s hs
    rw [hstretch s hs]
    rfl
  have hfind : stretch.find? (startsWith · "/**") = none := by
    rw [find?_eq_none]
    intro s hs
    simp [hstretch s hs]
  rw [commentAbove?, if_pos hrow]
  dsimp only
  rw [takeWhile_append_of_pos hpasses, find?_append, hfind, Option.none_or]
  rcases habove with rfl | ⟨opener, rest, rfl, hopener⟩
  · simp
  · simp [hopener]

/-! ## The lines that are taken -/

/-- The lines above a place are those above one of them and those from that one on. -/
lemma take_eq_append (h : m ≤ n) (lines : List String) : lines.take n = lines.take m ++ (lines.take n).drop m := by
  have htake : (lines.take n).take m = lines.take m := by rw [take_take, Nat.min_eq_left h]
  rw [← htake, take_append_drop]

/-- The lines from one on are that one and those behind it. -/
lemma drop_take_eq_cons (hline : lines[k]? = some line) (hk : k < n) :
    (lines.take n).drop k = line :: (lines.take n).drop (k + 1) := by
  rw [drop_eq_getElem?_toList_append, getElem?_take_of_lt hk, hline]
  rfl

/-- What is known of every line between two places is known of the stretch between them. -/
lemma forall_mem_drop_take {P : String → Prop} (h : ∀ k, m ≤ k → k < n → ∀ line ∈ lines[k]?, P line) :
    ∀ line ∈ (lines.take n).drop m, P line := by
  intro line hline
  obtain ⟨i, hi⟩ := mem_iff_getElem?.mp hline
  rw [getElem?_drop, getElem?_take] at hi
  split_ifs at hi with hlt
  exact h (m + i) (Nat.le_add_right m i) hlt line hi

/-- The search passes over the lines below the nearest one that closes a comment. -/
lemma commentAbove?_of_nearest (hd : IsGreatest (closers lines start) d)
    (hpassed : ∀ k, d < k → k < start → ∃ line ∈ lines[k]?, IsPassed line) :
    commentAbove? ((lines.take start).reverse.map trim) = commentAbove? ((lines.take (d + 1)).reverse.map trim) := by
  obtain ⟨⟨hlt, line, hline, -⟩, hgreatest⟩ := hd
  have hbelow : ∀ l ∈ (lines.take start).drop (d + 1), IsPassed l ∧ endsWith (trim l) "*/" = false := by
    refine forall_mem_drop_take fun k hdk hk l hl => ?_
    obtain ⟨l', hl', hpassed⟩ := hpassed k hdk hk
    obtain rfl : l' = l := Option.some.inj (hl'.symm.trans hl)
    refine ⟨hpassed, Bool.eq_false_iff.mpr fun hcloses => ?_⟩
    have hle := hgreatest ⟨hk, l', hl', hcloses⟩
    omega
  rw [take_eq_append hlt lines, reverse_append, map_append, commentAbove?_append]
  · intro l hl
    exact (hbelow l (mem_reverse.mp hl)).1
  · intro l hl
    exact (hbelow l (mem_reverse.mp hl)).2

/-- From the line that closes a comment the lines up to the nearest one that opens one are taken. -/
lemma commentAbove?_take_succ (hline : lines[d]? = some line)
    (hcloses : endsWith (trim line) "*/" = true) (hb : OpenedAt lines d b) :
    commentAbove? ((lines.take (d + 1)).reverse.map trim) = some (stripped lines b d) := by
  have hsucc : lines.take (d + 1) = lines.take d ++ [line] := by
    rw [List.take_add_one, hline]
    rfl
  rw [stripped, hsucc, List.reverse_append, List.reverse_singleton, List.singleton_append, List.map_cons]
  rcases hb with ⟨⟨hlt, opener, hopener, hopens⟩, hnearest⟩ | ⟨hnone, rfl⟩
  · have hbetween : ∀ l ∈ (lines.take d).drop (b + 1), startsWith (trim l) "/**" = false := by
      refine forall_mem_drop_take fun k hbk hk l hl => Bool.eq_false_iff.mpr fun hopens => ?_
      have hle := hnearest ⟨hk, l, hl, hopens⟩
      omega
    have hlength : (lines.take b).length = b :=
      List.length_take_of_le (List.getElem?_eq_some_iff.mp hopener).1.le
    rw [take_eq_append hlt.le lines, drop_take_eq_cons hopener hlt, List.reverse_append, List.reverse_cons,
      List.append_assoc, List.map_append]
    generalize (lines.take d).drop (b + 1) = between at hbetween ⊢
    rw [List.singleton_append, List.map_cons, commentAbove?_of_closes hcloses (by simpa using hbetween)
      (.inr ⟨_, _, rfl, hopens⟩), List.append_assoc, List.drop_left' hlength]
    simp
  · have hall : ∀ l ∈ lines.take d, startsWith (trim l) "/**" = false := by
      refine forall_mem_drop_take (m := 0) fun k _ hk l hl => Bool.eq_false_iff.mpr fun hopens => ?_
      have hmem : k ∈ openers lines d := ⟨hk, l, hl, hopens⟩
      simp [hnone] at hmem
    generalize lines.take d = between at hall ⊢
    have hscan := commentAbove?_of_closes hcloses (show ∀ s ∈ between.reverse.map trim, startsWith s "/**" = false by
      simpa using hall) (.inl rfl)
    rw [List.append_nil] at hscan
    rw [hscan]
    simp

/-- **The lines that are taken for the comment of a function**: those from the nearest line above that closes a comment up
to the nearest line above this one that opens one. -/
lemma doc_bracedChunk (hd : IsGreatest (closers lines start) d)
    (hpassed : ∀ k, d < k → k < start → ∃ line ∈ lines[k]?, IsPassed line) (hb : OpenedAt lines d b)
    (file language name : String) :
    (bracedChunk file language lines start name).doc = some (stripped lines b d) := by
  obtain ⟨-, line, hline, hcloses⟩ := hd.1
  change commentAbove? ((lines.take start).reverse.map trim) = _
  rw [commentAbove?_of_nearest hd hpassed, commentAbove?_take_succ hline hcloses hb]

/-! ## Texts of stretches -/

/-- The length of joined lines, with a line end behind each of them. -/
lemma length_joinWith {rows : List String} (hne : rows ≠ []) :
    (joinWith "\n" rows).length + 1 = (rows.map fun row => row.length + 1).sum := by
  induction rows with
  | nil => exact absurd rfl hne
  | cons row rows ih =>
    cases rows with
    | nil => simp [joinWith]
    | cons next rows =>
      have hjoin : joinWith "\n" (row :: next :: rows) = row ++ "\n" ++ joinWith "\n" (next :: rows) := by
        simp [joinWith, String.intercalate_cons_cons]
      rw [hjoin, String.length_append, String.length_append, map_cons, sum_cons, ← ih (by simp),
        show "\n".length = 1 from rfl]
      omega

/-- Lines with their ends have at least one character each. -/
lemma length_le_sum (rows : List String) : rows.length ≤ (rows.map fun row => row.length + 1).sum := by
  induction rows with
  | nil => simp
  | cons row rows ih =>
    rw [length_cons, map_cons, sum_cons]
    omega

/-- The number of characters of a stretch of lines, without blanks at their ends, but with a line end behind each. -/
def volume (lines : List String) (first behind : ℕ) : ℕ :=
  ((((lines.take behind).drop first).map trim).map fun row => row.length + 1).sum

lemma volume_eq_add (hkm : k ≤ m) (hmn : m ≤ n) (hn : n ≤ lines.length) :
    volume lines k n = volume lines k m + volume lines m n := by
  have htake := congrArg (List.drop k) (take_eq_append hmn lines)
  rw [drop_append_of_le_length (by rw [length_take]; omega)] at htake
  rw [volume, htake, map_append, map_append, sum_append, volume, volume]

lemma sub_le_volume (hn : n ≤ lines.length) : n - m ≤ volume lines m n := by
  refine le_trans ?_ (length_le_sum _)
  rw [length_map, length_drop, length_take]
  omega

lemma length_stripped (hmn : m ≤ n) (hn : n < lines.length) :
    (stripped lines m n).length + 1 = volume lines m (n + 1) := by
  refine length_joinWith (ne_nil_of_length_pos ?_)
  rw [length_map, length_drop, length_take]
  omega

/-- **A longer stretch has another text.** -/
lemma eq_of_stripped_eq {c : ℕ} (hb : b' ≤ b) (hbc : b ≤ c) (hc : c ≤ d) (hd : d < lines.length)
    (h : stripped lines b' d = stripped lines b c) : b' = b ∧ d = c := by
  have hlong := length_stripped (show b' ≤ d by omega) hd
  have hshort := length_stripped hbc (show c < lines.length by omega)
  have hsplit := volume_eq_add hb (show b ≤ d + 1 by omega) hd
  have hsplit' := volume_eq_add (show b ≤ c + 1 by omega) (show c + 1 ≤ d + 1 by omega) hd
  have hfront : b - b' ≤ volume lines b' b := sub_le_volume (by omega)
  have hback : d + 1 - (c + 1) ≤ volume lines (c + 1) (d + 1) := sub_le_volume hd
  rw [h] at hlong
  omega

/-! ## The comment of the function -/

lemma OpenedAt.le (h : OpenedAt lines (c + 1) b) : b ≤ c := by
  rcases h with h | ⟨-, rfl⟩
  · exact Nat.lt_succ_iff.mp h.1.1
  · exact Nat.zero_le c

/-- A line that opens no comment can be left aside in the search for one that does. -/
lemma openers_succ (h : c ∉ openers lines (c + 1)) : openers lines (c + 1) = openers lines c := by
  ext k
  constructor
  · rintro ⟨hk, hopens⟩
    have hne : k ≠ c := by
      rintro rfl
      exact h ⟨hk, hopens⟩
    exact ⟨by omega, hopens⟩
  · rintro ⟨hk, hopens⟩
    exact ⟨by omega, hopens⟩

/-- The lines taken begin at or above the line that opens the comment of the function. -/
lemma ClosedAt.opener_le (hc : ClosedAt lines start c) (hd : d < start) (hb : OpenedAt lines (c + 1) b)
    (hb' : OpenedAt lines d b') : b' ≤ b := by
  rcases hb' with ⟨⟨hlt, line, hline, hopens⟩, -⟩ | ⟨-, rfl⟩
  · have hle : b' ≤ c := by
      by_contra hgt
      obtain ⟨line', hline', hpassed⟩ := hc.passed b' (by omega) (by omega)
      obtain rfl : line' = line := Option.some.inj (hline'.symm.trans hline)
      rw [not_opens_of_isPassed hpassed] at hopens
      cases hopens
    have hmem : b' ∈ openers lines (c + 1) := ⟨by omega, line, hline, hopens⟩
    rcases hb with hb | ⟨hnone, -⟩
    · exact hb.2 hmem
    · simp [hnone] at hmem
  · exact Nat.zero_le b

/-- **When the comment of a function is taken.** Whenever the first line `c` above a function that is neither blank nor a
line comment closes a comment, some text is taken: up from the nearest line `d` above the function that ends like a
comment, which may be a line comment below `c`, to the nearest line above `d` that opens one. This is the text down to `c`
from the nearest line that opens a comment, `c` included, exactly if no line comment below `c` ends like a comment, and `c`
does not open the comment itself, unless it is the first line of all.

**Proof sketch.** The lines taken include those of the comment, and a longer stretch has another text
(`eq_of_stripped_eq`). It is no longer if the search ends in the line of the comment and passes over no line that opens
one. -/
theorem doc_eq_own_comment_iff {b : ℕ} (hc : ClosedAt lines start c) (hb : OpenedAt lines (c + 1) b)
    (file language name : String) :
    (∃ d b', IsGreatest (closers lines start) d ∧ OpenedAt lines d b' ∧
      (bracedChunk file language lines start name).doc = some (stripped lines b' d)) ∧
    ((bracedChunk file language lines start name).doc = some (stripped lines b c) ↔
      IsGreatest (closers lines start) c ∧ (c ∈ openers lines (c + 1) → c = 0)) := by
  obtain ⟨d, hd⟩ := exists_isGreatest ⟨c, hc.closes⟩ fun k hk => hk.1
  obtain ⟨b', hb'⟩ := exists_openedAt lines d
  have hcd : c ≤ d := hd.2 hc.closes
  have hdoc := doc_bracedChunk hd (fun k hk => hc.passed k (by omega)) hb' file language name
  have hle := hc.opener_le hd.1.1 hb hb'
  refine ⟨⟨d, b', hd, hb', hdoc⟩, ?_⟩
  rw [hdoc, Option.some_inj]
  constructor
  · intro heq
    obtain ⟨line, hline, -⟩ := hd.1.2
    obtain ⟨rfl, rfl⟩ := eq_of_stripped_eq hle hb.le hcd (List.getElem?_eq_some_iff.mp hline).1 heq
    refine ⟨hd, fun hopens => ?_⟩
    rcases hb with hb | ⟨hnone, -⟩
    · -- the comment opens in the line in which it ends, above which the search goes on
      have hend : d ≤ b' := hb.2 hopens
      rcases hb' with hb' | ⟨-, hzero⟩
      · exact absurd hb'.1.1 (by omega)
      · omega
    · simp [hnone] at hopens
  · rintro ⟨hgreatest, hfirst⟩
    obtain rfl := hd.unique hgreatest
    by_cases hopens : d ∈ openers lines (d + 1)
    · obtain rfl := hfirst hopens
      have hzero := hb.le
      rw [show b' = b by omega]
    · rw [OpenedAt, openers_succ hopens] at hb
      rw [OpenedAt.unique hb' hb]

/-- A function below a comment of one line, with another one above. -/
def oneLineComment : List String := ["/** A */", "let x", "/** B */", "function f() \x7b\x7d"]

/-- A function below a comment of three lines and a line comment. -/
def longComment : List String := ["let x", "/**", " * B", " */", "// C", "function f() \x7b\x7d"]

/-- The three lines are taken without what stands above and below, but the one line is taken with all that stands above
it, up to the comment before. -/
theorem doc_oneLineComment :
    (bracedChunk "a.js" "javascript" longComment 5 "f").doc = some "/**\n* B\n*/" ∧
    (bracedChunk "a.js" "javascript" oneLineComment 3 "f").doc ≠ some "/** B */" ∧
    (bracedChunk "a.js" "javascript" oneLineComment 3 "f").doc = some "/** A */\nlet x\n/** B */" := by
  refine ⟨?_, ?_, by decide +kernel⟩
  · have hcloses : 3 ∈ closers longComment 5 := ⟨by decide, _, rfl, by decide +kernel⟩
    have hbelow : ∀ line ∈ longComment[4]?, IsPassed line ∧ endsWith (trim line) "*/" = false := by decide +kernel
    have hinside : ∀ k ∈ [2, 3], ∀ line ∈ longComment[k]?, startsWith (trim line) "/**" = false := by decide +kernel
    have hclosed : ClosedAt longComment 5 3 := by
      refine ⟨hcloses, by decide +kernel, fun k hk hk' => ?_⟩
      obtain rfl : k = 4 := by omega
      exact ⟨_, rfl, (hbelow _ rfl).1⟩
    have hopened : OpenedAt longComment 4 1 := by
      refine .inl ⟨⟨by decide, _, rfl, by decide +kernel⟩, fun k ⟨hk, line, hline, hopens⟩ => ?_⟩
      by_contra hgt
      rw [hinside k (List.mem_pair.mpr (by omega)) line hline] at hopens
      cases hopens
    have hnearest : IsGreatest (closers longComment 5) 3 := by
      refine ⟨hcloses, fun k ⟨hk, line, hline, hends⟩ => ?_⟩
      by_contra hgt
      obtain rfl : k = 4 := by omega
      rw [(hbelow line hline).2] at hends
      cases hends
    obtain ⟨-, hiff⟩ := doc_eq_own_comment_iff hclosed hopened "a.js" "javascript" "f"
    rw [hiff.mpr ⟨hnearest, fun ⟨_, line, hline, hopens⟩ => ?_⟩]
    · decide +kernel
    · rw [hinside 3 (by decide) line hline] at hopens
      cases hopens
  · have hopens : 2 ∈ openers oneLineComment 3 := ⟨by decide, _, rfl, by decide +kernel⟩
    have hclosed : ClosedAt oneLineComment 3 2 :=
      ⟨⟨by decide, _, rfl, by decide +kernel⟩, by decide +kernel, fun k hk hk' => by omega⟩
    have hopened : OpenedAt oneLineComment 3 2 := .inl ⟨hopens, fun k hk => Nat.lt_succ_iff.mp hk.1⟩
    obtain ⟨-, hiff⟩ := doc_eq_own_comment_iff hclosed hopened "a.js" "javascript" "f"
    have htext : stripped oneLineComment 2 2 = "/** B */" := by decide +kernel
    rw [← htext]
    intro hdoc
    exact absurd ((hiff.mp hdoc).2 hopens) (by decide)

end CodeAudit.Chunker
