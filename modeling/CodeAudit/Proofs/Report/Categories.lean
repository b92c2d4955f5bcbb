import CodeAudit.Proofs.Number.Double
import CodeAudit.Proofs.Report.Markdown

/-!
# The findings of a report by category

Two sections of the report tell scored findings category by category. Findings that are records are partitioned by
their categories, whatever texts these are.

## Main definitions

* `Markdown.Issue` — a scored finding whose category is any text.
* `Markdown.categoryText`, `Markdown.detailText` — what the sections tell of a category.

## Main results

* `Markdown.groups_toRecord` — the groups of findings.
* `Markdown.sections_partition_by_category` — the two sections on a list of findings.
-/

namespace CodeAudit

open Datum List Sequence

/-- Pairs are compared by what comes first, and by their texts if it is equal. -/
lemma Datum.less_pair {β : Type} [LinearOrder β] {a b : Datum} {r r' : β} (heq : equals a b = decide (r = r'))
    (hless : less a b = .ok (decide (r < r'))) (s t : String) :
    less (.tuple [a, .text s]) (.tuple [b, .text t]) = .ok (decide (toLex (r, s) < toLex (r', t))) := by
  have htext : ordered.orderedItems .lt [.text s] [.text t] = .ok (decide (s < t)) := by
    rw [ordered.orderedItems]
    split_ifs with h
    · obtain rfl : s = t := by simpa using equals_text_iff.mp h
      rw [decide_eq_false (lt_irrefl s)]
      rfl
    · exact less_text s t
  change ordered.orderedItems .lt _ _ = _
  rw [ordered.orderedItems, heq, htext]
  by_cases h : r = r'
  · simp only [h, decide_true, if_true, Prod.Lex.toLex_lt_toLex, lt_irrefl, false_or, true_and]
  · simp only [h, decide_false, Bool.false_eq_true, if_false, Prod.Lex.toLex_lt_toLex, false_and, or_false]
    exact hless

namespace Markdown

/-- **A scored finding** whose category is any text. -/
structure Issue where
  id : String
  category : String
  severity : String
  score : Float
  title : String
  file : String
  firstLine : ℤ
  lastLine : ℤ
  why : String
  fix : String
  extra : Datum

namespace Issue

/-- A finding as a record. -/
def toRecord (s : Issue) : Datum :=
  .record [("id", .text s.id), ("category", .text s.category), ("severity", .text s.severity), ("score", .float s.score),
    ("title", .text s.title), ("file", .text s.file), ("start_line", .int s.firstLine), ("end_line", .int s.lastLine),
    ("why", .text s.why), ("fix", .text s.fix), ("extra", s.extra)]

/-- Where a finding is: the first line has the number one if it has none, and is the last line if that has none. -/
def place (s : Issue) : String :=
  let first := if s.firstLine = 0 then 1 else s.firstLine
  s.file ++ ":" ++ number first ++ "-" ++ number (if s.lastLine = 0 then first else s.lastLine)

/-- The line on a finding. -/
def line (s : Issue) : String :=
  "- [" ++ s.severity ++ "] " ++ s.title ++ " — " ++ s.place ++ " — score " ++ Number.fixed 2 s.score ++ "\n"

/-- The lines on a finding with reason and advice. -/
def paragraph (s : Issue) : String :=
  "- [" ++ s.severity ++ " • " ++ Number.fixed 2 s.score ++ "] " ++ s.title ++ "\n  - Where: " ++ s.place ++
    "\n  - Why: " ++ s.why ++ "\n  - Fix: " ++ s.fix ++ "\n"

/-- Decreasing score, then rising file. -/
def Before (s t : Issue) : Prop :=
  t.score ≤ s.score ∧ (s.score ≤ t.score → s.file ≤ t.file)

instance (s t : Issue) : Decidable (Before s t) :=
  inferInstanceAs (Decidable (_ ∧ _))

lemma location_toRecord (s : Issue) : location s.toRecord = .ok s.place := by
  have hline : ∀ n default : ℤ, ((Datum.int n).orElse (.int default)).toInt = .ok (if n = 0 then default else n) := by
    intro n default
    by_cases hn : n = 0 <;> simp [orElse, Datum.truthy, hn, toInt]
  have hfirst : lineOf s.toRecord "start_line" 1 = .ok _ := hline s.firstLine 1
  have hlast : ∀ default, lineOf s.toRecord "end_line" default = .ok _ := hline s.lastLine
  rw [location, hfirst]
  simp only [hlast, bind, Except.bind]
  rfl

lemma issueLine_toRecord (s : Issue) : issueLine s.toRecord = .ok s.line := by
  rw [issueLine, location_toRecord]
  rfl

lemma issueParagraph_toRecord (s : Issue) : issueParagraph s.toRecord = .ok s.paragraph := by
  rw [issueParagraph, location_toRecord]
  rfl

end Issue

/-- The findings of a category. -/
def ofCategory (issues : List Issue) (c : String) : List Issue :=
  issues.filter (·.category == c)

/-- The findings of a category in the order of decreasing score, then of files, then as they are given. -/
def ranked (issues : List Issue) (c : String) : List Issue :=
  (ofCategory issues c).mergeSort fun s t => decide (s.Before t)

/-- The categories of findings, in the order in which they first occur. -/
def categoriesOf (issues : List Issue) : List String :=
  (issues.map (·.category)).eraseDups

/-- The categories of findings, those with the most findings first, and then by name. -/
def categoriesBySize (issues : List Issue) : List String :=
  (categoriesOf issues).mergeSort fun c d =>
    decide (toLex (-((ofCategory issues c).length : ℤ), c) ≤ toLex (-((ofCategory issues d).length : ℤ), d))

/-- **What the section on the categories tells of one**: its heading with the number of its findings, and the first of
them. -/
def categoryText (issues : List Issue) (n : ℕ) (c : String) : String :=
  "\n### " ++ Text.capitalize c ++ " (" ++ number (ofCategory issues c).length ++ ")\n" ++
    String.join (((ranked issues c).take n).map (·.line))

/-- **What the section with the details tells of a category**: its heading, and fifty findings at most. -/
def detailText (issues : List Issue) (c : String) : String :=
  "\n### " ++ Text.capitalize c ++ "\n" ++
    String.join ((((ofCategory issues c).mergeSort fun s t => decide (t.score ≤ s.score)).take 50).map (·.paragraph))

/-! ## Groups -/

/-- A group of a category. -/
def groupOf (members : String → List Issue) (c : String) : Datum × List Datum :=
  (.text c, (members c).map (·.toRecord))

/-- A finding joins the group of its category. -/
lemma addToGroup_of_mem (s : Issue) (members : String → List Issue) {cats : List String} (h : cats.Nodup)
    (hmem : s.category ∈ cats) : addToGroup s.toRecord (cats.map (groupOf members)) =
      cats.map (groupOf fun c => if c = s.category then members c ++ [s] else members c) := by
  induction cats with
  | nil => cases hmem
  | cons c cats ih =>
    obtain ⟨hc, hcats⟩ := nodup_cons.mp h
    by_cases hsame : c = s.category
    · -- the other groups are of other categories
      have hothers : cats.map (groupOf fun c => if c = s.category then members c ++ [s] else members c) =
          cats.map (groupOf members) := by
        refine map_congr_left fun d hd => ?_
        have hne : d ≠ s.category := fun heq => hc (hsame.trans heq.symm ▸ hd)
        simp only [groupOf, hne, if_false]
      have hjoins : ((groupOf members c).1 == categoryOf s.toRecord) = true := by
        change (Datum.text c == .text s.category) = true
        simpa using hsame
      rw [map_cons, map_cons, hothers, addToGroup, hjoins]
      simp [groupOf, hsame]
    · have hpasses : ((groupOf members c).1 == categoryOf s.toRecord) = false := by
        change (Datum.text c == .text s.category) = false
        simpa using hsame
      rw [map_cons, map_cons, addToGroup, hpasses,
        ih hcats ((mem_cons.mp hmem).resolve_left (Ne.symm hsame))]
      simp [groupOf, hsame]

/-- A finding opens the group of its category if there is none. -/
lemma addToGroup_of_not_mem (s : Issue) (members : String → List Issue) {cats : List String} (h : s.category ∉ cats) :
    addToGroup s.toRecord (cats.map (groupOf members)) =
      cats.map (groupOf members) ++ [groupOf (fun _ => [s]) s.category] := by
  induction cats with
  | nil => rfl
  | cons c cats ih =>
    obtain ⟨hc, hcats⟩ := not_or.mp (mt mem_cons.mpr h)
    have hother : ((groupOf members c).1 == categoryOf s.toRecord) = false := by
      change (Datum.text c == .text s.category) = false
      simpa using Ne.symm hc
    rw [map_cons, addToGroup, hother, ih hcats]
    rfl

/-- **The groups of findings** are those of their categories. -/
lemma groups_toRecord (issues : List Issue) :
    groups (issues.map (·.toRecord)) = .ok ((categoriesOf issues).map (groupOf (ofCategory issues))) := by
  induction issues using reverseRecOn with
  | nil => rfl
  | append_singleton issues s ih =>
    have hmembers : ∀ c, ofCategory (issues ++ [s]) c = ofCategory issues c ++ if s.category = c then [s] else [] := by
      intro c
      by_cases hc : s.category = c <;> simp [ofCategory, hc]
    have hstep : groups ((issues ++ [s]).map (·.toRecord)) =
        .ok (addToGroup s.toRecord ((categoriesOf issues).map (groupOf (ofCategory issues)))) := by
      rw [groups, map_append, foldlM_append, ← groups, ih]
      rfl
    have hnodup : (categoriesOf issues).Nodup := nodup_eraseDups _
    have hcats : categoriesOf (issues ++ [s]) =
        if s.category ∈ issues.map (·.category) then categoriesOf issues else categoriesOf issues ++ [s.category] := by
      rw [categoriesOf, map_append]
      exact eraseDups_concat _ _
    rw [hstep, hcats]
    split_ifs with hmem
    · rw [addToGroup_of_mem s _ hnodup (mem_eraseDups.mpr hmem)]
      refine congrArg Except.ok (map_congr_left fun c _ => ?_)
      by_cases hc : c = s.category <;> simp [groupOf, hmembers, hc, eq_comm]
    · have hnew : s.category ∉ categoriesOf issues := mt mem_eraseDups.mp hmem
      rw [addToGroup_of_not_mem s _ hnew, map_append, map_singleton]
      have hnone : ofCategory issues s.category = [] := by
        rw [ofCategory, filter_eq_nil_iff]
        intro t ht heq
        exact hmem (mem_map.mpr ⟨t, ht, by simpa using heq⟩)
      refine congrArg Except.ok (congrArg₂ (· ++ ·) (map_congr_left fun c hc => ?_) ?_)
      · have hne : s.category ≠ c := fun heq => hmem (heq ▸ mem_eraseDups.mp hc)
        simp [groupOf, hmembers, hne]
      · simp [groupOf, hmembers, hnone]

/-! ## Sections -/

section Sections

variable {issues : List Issue} (h : ∀ s ∈ issues, Number.IsFinite s.score)

include h

/-- The records of a category in the order of decreasing score, then of their files. -/
lemma sortGroup_groupOf (c : String) :
    sortGroup (groupOf (ofCategory issues) c) = .ok (groupOf (ranked issues) c) := by
  have hnan : ∀ s ∈ ofCategory issues c, s.score.isNaN = false ∧ (-s.score).isNaN = false := fun s hs =>
    have hs := h s (mem_of_mem_filter hs)
    ⟨hs.isNaN_eq_false, (Number.isFinite_neg hs).isNaN_eq_false⟩
  have hcompares : Compares
      (fun a b : Datum => Datum.less (.tuple [.float (-scoreOf a), a.fieldOr "file" (.text "")])
        (.tuple [.float (-scoreOf b), b.fieldOr "file" (.text "")]))
      (fun a => toLex (Number.rank (-scoreOf a), (a.fieldOr "file" (.text "")).str))
      ((ofCategory issues c).map (·.toRecord)) := by
    intro a ha b hb
    obtain ⟨s, hs, rfl⟩ := mem_map.mp ha
    obtain ⟨t, ht, rfl⟩ := mem_map.mp hb
    have hs := (hnan s hs).2
    have ht := (hnan t ht).2
    exact less_pair (equals_float hs ht) (less_float hs ht) s.file t.file
  rw [sortGroup, groupOf, sortByKeyM_eq hcompares, ← map_mergeSort]
  · rfl
  · intro s hs t ht
    change decide (s.Before t) = decide (toLex (Number.rank (-s.score), s.file) ≤ toLex (Number.rank (-t.score), t.file))
    rw [decide_eq_decide, Prod.Lex.toLex_le_toLex, Number.rank_neg (hnan s hs).1, Number.rank_neg (hnan t ht).1,
      neg_lt_neg_iff, neg_inj, Issue.Before, Number.le_iff_rank_le (hnan t ht).1 (hnan s hs).1,
      Number.le_iff_rank_le (hnan s hs).1 (hnan t ht).1]
    constructor
    · rintro ⟨hle, hfile⟩
      rcases hle.lt_or_eq with hlt | heq
      · exact .inl hlt
      · exact .inr ⟨heq.symm, hfile heq.ge⟩
    · rintro (hlt | ⟨heq, hfile⟩)
      · exact ⟨hlt.le, fun hle => absurd hle hlt.not_ge⟩
      · exact ⟨heq.ge, fun _ => hfile⟩

omit h in
/-- The part on a category whose findings are in order. -/
lemma categoryPart_groupOf (n : ℕ) (c : String) :
    categoryPart (.int n) (groupOf (ranked issues) c) = .ok (categoryText issues n c) := by
  have hlines (xs : List Issue) : ((xs.map (·.toRecord)).take n).mapM issueLine = .ok ((xs.take n).map (·.line)) := by
    rw [← map_take, mapM_map, Outcome.mapM_eq_ok fun s _ => s.issueLine_toRecord]
  simp only [categoryPart, groupOf, heading, firstOf_eq_take, hlines, length_map, ranked,
    length_mergeSort, bind, Except.bind]
  rfl

/-- The details on a category. -/
lemma detailPart_groupOf (c : String) : detailPart (groupOf (ofCategory issues) c) = .ok (detailText issues c) := by
  have hnan : ∀ s ∈ ofCategory issues c, s.score.isNaN = false := fun s hs =>
    (h s (mem_of_mem_filter hs)).isNaN_eq_false
  have hsorted : byScore ((ofCategory issues c).map (·.toRecord)) =
      .ok (((ofCategory issues c).mergeSort fun s t => decide (t.score ≤ s.score)).map (·.toRecord)) := by
    rw [byScore_eq, map_mergeSort]
    · intro s hs t ht
      rw [decide_eq_decide]
      exact Number.le_iff_rank_le (hnan t ht) (hnan s hs)
    · intro d hd
      obtain ⟨s, hs, rfl⟩ := mem_map.mp hd
      exact hnan s hs
  have hparagraphs (xs : List Issue) :
      ((xs.map (·.toRecord)).take 50).mapM issueParagraph = .ok ((xs.take 50).map (·.paragraph)) := by
    rw [← map_take, mapM_map, Outcome.mapM_eq_ok fun s _ => s.issueParagraph_toRecord]
  simp only [detailPart, groupOf, heading, hsorted, hparagraphs, bind, Except.bind]
  rfl

/-- **The section on the categories.** -/
lemma perCategory_toRecord (n : ℕ) : perCategory (.list (issues.map (·.toRecord))) (.int n) =
    .ok ("\n## Per-category\n" ++
      if issues.isEmpty then nothingFound else String.join ((categoriesBySize issues).map (categoryText issues n))) := by
  let sorted := groupOf (ranked issues)
  have hsorted : ((categoriesOf issues).map (groupOf (ofCategory issues))).mapM sortGroup =
      .ok ((categoriesOf issues).map sorted) := by
    rw [mapM_map]
    exact Outcome.mapM_eq_ok fun c _ => sortGroup_groupOf h c
  have hcompares : Compares
      (fun g g' : Datum × List Datum => Datum.less (.tuple [.int (-g.2.length), g.1]) (.tuple [.int (-g'.2.length), g'.1]))
      (fun g => toLex (-(g.2.length : ℤ), g.1.str)) ((categoriesOf issues).map sorted) := by
    intro g hg g' hg'
    obtain ⟨c, -, rfl⟩ := mem_map.mp hg
    obtain ⟨d, -, rfl⟩ := mem_map.mp hg'
    exact less_pair (equals_int _ _) (less_int _ _) c d
  have hordered : ((categoriesOf issues).map sorted).mergeSort (fun g g' =>
      decide (toLex (-(g.2.length : ℤ), g.1.str) ≤ toLex (-(g'.2.length : ℤ), g'.1.str))) =
        (categoriesBySize issues).map sorted := by
    rw [categoriesBySize, map_mergeSort]
    intro c _ d _
    simp [sorted, groupOf, ranked, Datum.str]
  have hparts : ((categoriesBySize issues).map sorted).mapM (categoryPart (.int n)) =
      .ok ((categoriesBySize issues).map (categoryText issues n)) := by
    rw [mapM_map]
    exact Outcome.mapM_eq_ok fun c _ => categoryPart_groupOf n c
  have hempty : ((categoriesOf issues).map sorted).isEmpty = issues.isEmpty := by
    cases issues with
    | nil => rfl
    | cons s rest => simp [categoriesOf, eraseDups_cons]
  simp only [perCategory, Datum.items, groups_toRecord, hsorted, sortByKeyM_eq hcompares, hordered, hparts, hempty,
    bind, Except.bind, pure, Except.pure]
  split_ifs <;> rfl

/-- **The section with the details.** -/
lemma issueDetails_toRecord : issueDetails (.list (issues.map (·.toRecord))) =
    .ok ("\n## Issue details\n" ++
      if issues.isEmpty then nothingFound else String.join ((categoriesOf issues).map (detailText issues))) := by
  have hparts : ((categoriesOf issues).map (groupOf (ofCategory issues))).mapM detailPart =
      .ok ((categoriesOf issues).map (detailText issues)) := by
    rw [mapM_map]
    exact Outcome.mapM_eq_ok fun c _ => detailPart_groupOf h c
  have htruthy : (Datum.list (issues.map (·.toRecord))).truthy = !issues.isEmpty := by
    cases issues <;> rfl
  simp only [issueDetails, htruthy, Datum.items, groups_toRecord, hparts, bind, Except.bind, pure, Except.pure, Bool.not_not]
  split_ifs <;> rfl

end Sections

/-! ## The partition -/

/-- The categories are in the order of their sizes, then of their names. -/
lemma pairwise_categoriesBySize (issues : List Issue) : (categoriesBySize issues).Pairwise fun c d =>
    (ofCategory issues d).length < (ofCategory issues c).length ∨
      (ofCategory issues c).length = (ofCategory issues d).length ∧ c < d := by
  have hrising := (isStable_mergeSort (fun c => toLex (-((ofCategory issues c).length : ℤ), c))
    (categoriesOf issues)).rising
  have hnodup : (categoriesBySize issues).Nodup :=
    (mergeSort_perm _ _).nodup_iff.mpr (nodup_eraseDups _)
  refine (hrising.and hnodup).imp fun {c d} hcd => ?_
  obtain ⟨hle, hne⟩ := hcd
  rw [Prod.Lex.toLex_le_toLex] at hle
  rcases hle with hlt | ⟨heq, hle⟩
  · exact .inl (by simpa using hlt)
  · exact .inr ⟨by simpa using heq, lt_of_le_of_ne hle hne⟩

/-- **The sections on categories partition the findings.** Let the scores of findings be finite. The section on the
categories tells each category once, those with the most findings first and then by name; the numbers in the headings sum
up to the number of findings, and below each heading come the first findings of the category, in the order of decreasing
score, then of files, then as they are given. The section with the details tells the categories as they first occur, with
the first fifty findings of each in the order of decreasing score. -/
theorem sections_partition_by_category {issues : List Issue} (h : ∀ s ∈ issues, Number.IsFinite s.score) (n : ℕ) :
    ∃ cats : List String, cats.Nodup ∧ (∀ c, c ∈ cats ↔ ∃ s ∈ issues, s.category = c) ∧
      (cats.map fun c => (ofCategory issues c).length).sum = issues.length ∧
      cats.Pairwise (fun c d => (ofCategory issues d).length < (ofCategory issues c).length ∨
        (ofCategory issues c).length = (ofCategory issues d).length ∧ c < d) ∧
      perCategory (.list (issues.map (·.toRecord))) (.int n) = .ok ("\n## Per-category\n" ++
        if issues.isEmpty then nothingFound else String.join (cats.map (categoryText issues n))) ∧
      issueDetails (.list (issues.map (·.toRecord))) = .ok ("\n## Issue details\n" ++
        if issues.isEmpty then nothingFound else String.join ((categoriesOf issues).map (detailText issues))) := by
  have hperm : (categoriesBySize issues).Perm (categoriesOf issues) := List.mergeSort_perm _ _
  have hnodup : (categoriesBySize issues).Nodup := hperm.nodup_iff.mpr (Sequence.nodup_eraseDups _)
  have hmem : ∀ c, c ∈ categoriesBySize issues ↔ ∃ s ∈ issues, s.category = c := by
    intro c
    rw [hperm.mem_iff, categoriesOf, List.mem_eraseDups, List.mem_map]
  have hall := Sequence.perm_flatMap_filter hnodup (·.category) fun s hs => (hmem _).mpr ⟨s, hs, rfl⟩
  refine ⟨categoriesBySize issues, hnodup, hmem, ?_, pairwise_categoriesBySize issues, perCategory_toRecord h n,
    issueDetails_toRecord h⟩
  rw [← hall.length_eq, List.length_flatMap]
  rfl

/-- A finding in the third line of a file. -/
def thirdLine (category file : String) (score : Float) : Issue :=
  ⟨"i", category, "P2", score, "t", file, 3, 0, "w", "f", .null⟩

/-- Two findings of one category and one of another. -/
def threeIssues : List Issue :=
  [thirdLine "style" "b.py" 1, thirdLine "a" "c.py" 2, thirdLine "style" "a.py" 1]

/-- The greater category comes first, and its two findings come by their files. -/
theorem sections_threeIssues : (∀ s ∈ threeIssues, Number.IsFinite s.score) ∧
    perCategory (.list (threeIssues.map (·.toRecord))) (.int 1) =
      .ok ("\n## Per-category\n\n### Style (2)\n- [P2] t — a.py:3-3 — score 1.00\n" ++
        "\n### A (1)\n- [P2] t — c.py:3-3 — score 2.00\n") := by
  have hfinite : ∀ s ∈ threeIssues, Number.IsFinite s.score := by
    intro s hs
    have hcheck : ∀ s ∈ threeIssues, Number.exponentOf s.score.toBits.toBitVec ≠ 2047 := by decide +kernel
    exact (Number.isFinite_iff s.score).mpr (hcheck s hs)
  obtain ⟨cats, hnodup, hmem, -, hpairwise, hsection, -⟩ := sections_partition_by_category hfinite 1
  have hcats : cats = ["style", "a"] := by
    have hperm : cats.Perm ["style", "a"] := (List.perm_ext_iff_of_nodup hnodup (by decide)).mpr fun c => by
      rw [hmem]
      simp only [threeIssues, thirdLine, List.mem_cons, List.not_mem_nil, or_false, exists_eq_or_imp, exists_eq_left]
      tauto
    exact hperm.eq_of_pairwise (fun c d _ _ hcd hdc => by grind) hpairwise (by decide +kernel)
  have hstyle : ranked threeIssues "style" = [thirdLine "style" "a.py" 1, thirdLine "style" "b.py" 1] := by
    have hbefore : decide ((thirdLine "style" "b.py" 1).Before (thirdLine "style" "a.py" 1)) = false := by decide +kernel
    have hfilter : ofCategory threeIssues "style" = [thirdLine "style" "b.py" 1, thirdLine "style" "a.py" 1] := rfl
    rw [ranked, hfilter]
    simp [List.mergeSort, hbefore]
  have ha : ranked threeIssues "a" = [thirdLine "a" "c.py" 2] := List.mergeSort_singleton _
  rw [hcats, List.map_cons, List.map_cons, categoryText, categoryText, hstyle, ha] at hsection
  refine ⟨hfinite, hsection.trans (congrArg Except.ok ?_)⟩
  decide +kernel

end Markdown

end CodeAudit
