import CodeAudit.Index.Search
import CodeAudit.Proofs.Outcome
import CodeAudit.Proofs.Text.Case
import CodeAudit.Proofs.Text.Pattern

/-!
# The names that a question mentions

A search should look for the words of its question: the longest rows of characters of names that start as names do and
have at least three characters. It looks for something else. What it finds in a question are names between marks, which
are a backslash and the letter b written out, and it finds them together with their marks. No word holds a backslash. So
the words of a question are found only if there are none, and nothing that is found raises the score of a document,
unless a backslash stands in the name of the document or of its file.

## Main definitions

* `Search.words` — the words for which a search should look.
* `Search.IsMarked` — a name between marks.

## Main results

* `Search.exists_identifiers` — what is found are the leftmost names between marks.
* `Search.identifiers_eq_words_iff` — when the words of a question are found.
-/

namespace CodeAudit.Search

open CodeAudit.Text Pattern List

/-! ## Names between marks -/

/-- A character of a name. -/
def isNameChar (c : Char) : Bool :=
  isNameStart c || c.isDigit

/-- **The words of a question** by which it should be searched, in the order in which they occur: the longest rows of
characters of names in its small letters that start as names do and have at least three characters. -/
def words (question : String) : List String :=
  (((lower question).toList.splitOnP fun c => !isNameChar c).filter fun w =>
    3 ≤ w.length && w.head?.any isNameStart).map String.ofList

/-- The characters of a mark. -/
def markChars : List Char := ['\\', 'b']

/-- A name between marks. -/
def IsMarked (part : List Char) : Prop :=
  ∃ x name, isNameStart x = true ∧ (∀ c ∈ name, isNameChar c = true) ∧ part = markChars ++ x :: name ++ markChars

lemma run_mark (s : List Char) (before : Option Char) (passed : ℕ) (parts : List (ℕ × List Char)) (next : Next) :
    mark.run ⟨s, before, passed, parts⟩ next =
      (dropLeading? markChars s).bind fun rest => next ⟨rest, some 'b', passed + 2, parts⟩ := by
  change (char '\\').run _ (fun d => (char 'b').run d next) = _
  cases s with
  | nil => rfl
  | cons x s =>
    by_cases hx : x = '\\'
    · subst hx
      cases s with
      | nil => rfl
      | cons y s =>
        by_cases hy : y = 'b'
        · subst hy
          rfl
        · simp [char, dropLeading?, markChars, hy, Ne.symm hy]
    · simp [char, dropLeading?, markChars, hx, Ne.symm hx]

/-- The row of characters of a name at the start of a text ends before a mark. -/
lemma dropLeading?_of_nameChar {x : Char} {rest : List Char} (h : isNameChar x = true) :
    dropLeading? markChars (x :: rest) = none := by
  have hx : x ≠ '\\' := by
    rintro rfl
    exact absurd h (by decide)
  simp [dropLeading?, markChars, hx.symm]

/-- The position behind a name between marks. -/
def behind (x : Char) (name rest : List Char) : Cursor :=
  ⟨rest, some 'b', name.length + 5, [(1, x :: name)]⟩

/-- **What is found at a place**: a mark, a name that is as long as possible, and another mark. -/
lemma match?_markedName (s : List Char) (before : Option Char) :
    markedName.match? ⟨s, before, 0, []⟩ =
      (dropLeading? markChars s).bind fun
        | [] => none
        | x :: t =>
          if isNameStart x then
            (dropLeading? markChars (t.dropWhile isNameChar)).map (behind x (t.takeWhile isNameChar))
          else none := by
  change mark.run _ (fun c => (seq (one isNameStart) (many (one isNameChar))).run c fun d =>
    mark.run { d with parts := (1, c.rest.take (d.passed - c.passed)) :: d.parts } some) = _
  rw [run_mark]
  congr 1
  funext r
  cases r with
  | nil => rfl
  | cons x t =>
    set next : Next := fun d =>
      mark.run { d with parts := (1, (x :: t).take (d.passed - 2)) :: d.parts } some with hnext
    change (one isNameStart).run ⟨x :: t, some 'b', 2, []⟩ (fun d => (many (one isNameChar)).run d next) = _
    rw [run_one_cons]
    have hstop : ∀ d y rest, d.rest = y :: rest → isNameChar y = true → next d = none := by
      intro d y rest hrest hy
      simp only [hnext]
      rw [run_mark, hrest, dropLeading?_of_nameChar hy]
      rfl
    obtain ⟨before', hmany⟩ := run_many_one hstop t (some x) 3 []
    have htake : (x :: t).take (3 + (t.takeWhile isNameChar).length - 2) = x :: t.takeWhile isNameChar := by
      rw [show 3 + (t.takeWhile isNameChar).length - 2 = (t.takeWhile isNameChar).length + 1 by omega,
        take_succ_cons, ← prefix_iff_eq_take.mp ( takeWhile_prefix isNameChar)]
    have hpassed : 3 + (t.takeWhile isNameChar).length + 2 = (t.takeWhile isNameChar).length + 5 := by omega
    dsimp only
    rw [hmany]
    simp only [hnext]
    rw [run_mark, htake, hpassed, Option.map_eq_bind]
    rfl

/-- A name between marks, from the position behind it. -/
def markedBefore (d : Cursor) : List Char :=
  match d.parts with
  | [] => []
  | (_, name) :: _ => markChars ++ name ++ markChars

/-- What is found is a name between marks. -/
lemma of_match? {s : List Char} {before : Option Char} {d : Cursor}
    (h : markedName.match? ⟨s, before, 0, []⟩ = some d) :
    ∃ x name, isNameStart x = true ∧ (∀ c ∈ name, isNameChar c = true) ∧ d = behind x name d.rest ∧
      s = markChars ++ x :: name ++ markChars ++ d.rest := by
  rw [match?_markedName, Option.bind_eq_some_iff] at h
  obtain ⟨r, hr, h⟩ := h
  cases r with
  | nil => cases h
  | cons x t =>
    dsimp only at h
    split_ifs at h with hx
    obtain ⟨u, hu, rfl⟩ := Option.map_eq_some_iff.mp h
    refine ⟨x, t.takeWhile isNameChar, hx, fun c hc => mem_takeWhile_imp hc, rfl, ?_⟩
    rw [dropLeading?_eq_some_iff.mp hr, append_assoc, append_assoc, cons_append]
    change _ = markChars ++ x :: (t.takeWhile isNameChar ++ (markChars ++ u))
    rw [← dropLeading?_eq_some_iff.mp hu, takeWhile_append_dropWhile]

/-- Where nothing is found, no name between marks begins. -/
lemma not_prefix_of_match? {s : List Char} {before : Option Char}
    (h : markedName.match? ⟨s, before, 0, []⟩ = none) (part : List Char) (hpart : IsMarked part) : ¬ part <+: s := by
  rintro ⟨u, rfl⟩
  obtain ⟨x, name, hx, hname, rfl⟩ := hpart
  have hfirst : dropLeading? markChars (markChars ++ x :: name ++ markChars ++ u) =
      some (x :: (name ++ (markChars ++ u))) := by
    rw [dropLeading?_eq_some_iff]
    simp
  have hdrop : (name ++ (markChars ++ u)).dropWhile isNameChar = markChars ++ u := by
    rw [dropWhile_append_of_pos hname]
    rfl
  have hsecond : dropLeading? markChars (markChars ++ u) = some u := dropLeading?_eq_some_iff.mpr rfl
  rw [match?_markedName, hfirst] at h
  simp [hx, hdrop, hsecond] at h

/-- **The names that a question mentions are the leftmost names between marks** in its small letters. -/
lemma exists_identifiers (question : String) :
    ∃ parts, identifiers (.text question) = .ok (parts.map String.ofList) ∧
      Leftmost IsMarked (lower question).toList parts := by
  have hlowered : lowered (.text question) = .ok (lower question) := by
    unfold lowered Datum.orElse
    by_cases hempty : question = ""
    · subst hempty
      rfl
    · simp [Datum.truthy, hempty]
  refine ⟨(markedName.matchAll (lower question)).map markedBefore, ?_, ?_⟩
  · have hread : ∀ d ∈ markedName.matchAll (lower question),
        (d.part? 1).map ("\\b" ++ · ++ "\\b") = some (String.ofList (markedBefore d)) := by
      intro d hd
      obtain ⟨s, before, hmatch⟩ := exists_of_mem_matchAllFrom hd
      obtain ⟨x, name, -, -, hbehind, -⟩ := of_match? hmatch
      rw [hbehind]
      change some ("\\b" ++ String.ofList (x :: name) ++ "\\b") = _
      rw [Option.some.injEq, ← String.toList_inj]
      simp [behind, markedBefore, markChars]
    rw [identifiers, hlowered]
    change Except.ok (((markedName.matchAll (lower question)).filterMap (·.part? 1)).map ("\\b" ++ · ++ "\\b")) = _
    rw [map_filterMap, filterMap_congr hread, map_map]
    exact congrArg _ (congrFun filterMap_eq_map _)
  · refine leftmost_matchAllFrom (fun hmatch => ?_) (fun hmatch => not_prefix_of_match? hmatch) _ _
    obtain ⟨x, name, hx, hname, hbehind, hs⟩ := of_match? hmatch
    rw [hbehind] at hs ⊢
    refine ⟨⟨x, name, hx, hname, rfl⟩, hs, ?_, ?_⟩
    · simp [behind, markedBefore, markChars]
    · simp [behind, markedBefore, markChars]

/-! ## Words -/

/-- Words hold no marks. -/
lemma mark_not_mem_of_mem_words {question word : String} (h : word ∈ words question) : '\\' ∉ word.toList := by
  obtain ⟨w, hw, rfl⟩ := mem_map.mp h
  rw [String.toList_ofList]
  intro hmark
  exact absurd (Sequence.eq_false_of_mem_splitOnP (mem_of_mem_filter hw) hmark) (by decide)

/-- Names between marks hold a mark, and words do not. -/
lemma mark_mem_of_isMarked {part : List Char} (h : IsMarked part) : '\\' ∈ part := by
  obtain ⟨x, name, -, -, rfl⟩ := h
  simp [markChars]

/-! ## Scores -/

/-- Names that occur neither in the name of a document nor in that of its file leave its score as it is. -/
lemma adjusted_of_unmentioned {boost score : Datum} {ids : List String} {d : Document} {name file : String} {x : Float}
    (hname : loweredDetail d "name" = .ok name) (hfile : loweredDetail d "file_name" = .ok file)
    (hno : ∀ id ∈ ids, contains name id = false ∧ contains file id = false) (hscore : score.toFloat = .ok x) :
    adjusted boost ids d score = .ok x := by
  have hfold : ids.foldlM (adjustBy boost name file) x = .ok x := by
    clear hname hfile hscore
    induction ids with
    | nil => rfl
    | cons id ids ih =>
      obtain ⟨hid, hid'⟩ := hno id mem_cons_self
      have hstep : adjustBy boost name file x id = .ok x := by simp [adjustBy, hid, hid', bind, Except.bind]
      rw [foldlM_cons, hstep]
      exact ih fun id hid => hno id (mem_cons_of_mem _ hid)
  simp only [adjusted, hscore, hname, hfile, bind, Except.bind]
  exact hfold

/-- A text that holds a mark does not occur in one without marks. -/
lemma contains_eq_false_of_mark {text id : String} (htext : '\\' ∉ text.toList) (hid : '\\' ∈ id.toList) :
    contains text id = false := by
  rw [Bool.eq_false_iff]
  exact fun hcontains => htext ((contains_iff.mp hcontains).subset hid)

/-- **The words of a question are found only if it has none.**

A question always gives names to look for: the leftmost names between marks in its small letters. They are the words of
the question exactly if there are neither words nor names between marks. And whatever they are, no document gains by
them whose name and file have no backslash: its score is the one that the store gave.

**Proof sketch.** Each name that is found holds a mark (`mark_mem_of_isMarked`), and no word does
(`mark_not_mem_of_mem_words`), so one can be the other only if there is nothing. For the same reason no such name occurs
in a text without a backslash (`contains_eq_false_of_mark`). -/
theorem identifiers_eq_words_iff (question : String) :
    ∃ parts, identifiers (.text question) = .ok (parts.map String.ofList) ∧
      Leftmost IsMarked (lower question).toList parts ∧
      (parts.map String.ofList = words question ↔
        words question = [] ∧ ∀ part, IsMarked part → ¬ part <:+: (lower question).toList) ∧
      ∀ (boost score : Datum) (d : Document) (name file : String) (x : Float),
        loweredDetail d "name" = .ok name → loweredDetail d "file_name" = .ok file →
        '\\' ∉ name.toList → '\\' ∉ file.toList → score.toFloat = .ok x →
        adjusted boost (parts.map String.ofList) d score = .ok x := by
  obtain ⟨parts, hids, hleftmost⟩ := exists_identifiers question
  have hmark : ∀ id ∈ parts.map String.ofList, '\\' ∈ id.toList := by
    intro id hid
    obtain ⟨part, hpart, rfl⟩ := List.mem_map.mp hid
    rw [String.toList_ofList]
    exact mark_mem_of_isMarked (hleftmost.of_mem hpart)
  refine ⟨parts, hids, hleftmost, ⟨fun heq => ?_, fun h => ?_⟩, ?_⟩
  · have hnil : words question = [] := by
      refine List.eq_nil_iff_forall_not_mem.mpr fun word hword => ?_
      exact mark_not_mem_of_mem_words hword (hmark word (heq ▸ hword))
    rw [hnil, List.map_eq_nil_iff] at heq
    exact ⟨hnil, hleftmost.eq_nil_iff.mp heq⟩
  · rw [h.1, hleftmost.eq_nil_iff.mpr h.2, List.map_nil]
  · intro boost score d name file x hname hfile hplain hplain' hscore
    refine adjusted_of_unmentioned hname hfile (fun id hid => ?_) hscore
    exact ⟨contains_eq_false_of_mark hplain (hmark id hid), contains_eq_false_of_mark hplain' (hmark id hid)⟩

/-- A document on a function. -/
def alphaDocument : Document where
  content := "alpha()"
  metadata := .object [("name", .text "alpha"), ("file_name", .text "alpha.py")]

/-- The only word of a question is not among the names by which it searches, and a document with just that name gains
nothing. -/
theorem identifiers_oneWord :
    words "Alpha" = ["alpha"] ∧ ∃ ids, identifiers (.text "Alpha") = .ok ids ∧ ids ≠ words "Alpha" ∧
      adjusted (.float 0.3) ids alphaDocument (.float 0.5) = .ok 0.5 := by
  have hwords : words "Alpha" = ["alpha"] := by decide +kernel
  obtain ⟨parts, hids, -, hiff, hscore⟩ := identifiers_eq_words_iff "Alpha"
  refine ⟨hwords, _, hids, fun heq => ?_, ?_⟩
  · have := (hiff.mp heq).1
    rw [hwords] at this
    cases this
  · exact hscore _ _ alphaDocument "alpha" "alpha.py" _ (by decide +kernel) (by decide +kernel) (by decide) (by decide) rfl

end CodeAudit.Search
