import CodeAudit.Proofs.Files.Path
import CodeAudit.Proofs.Text.Case
import CodeAudit.Source.Language

/-!
# Two ways to tell a language

A scan tells the language of a file by the suffix of its name, an analysis by the end of its path. Both look at what
stands behind the last point of the name, in lower case. They differ in two ways: a scan knows more suffixes, and a
name that has its only point in front has no suffix but an end.

## Main definitions

* `Language.bare?` — the language of a name that is nothing but an ending.
* `Language.analysed` — the language in which a file is analysed, told by its name.

## Main results

* `Language.ofEnding_eq_analysed` — what an analysis tells.
* `Language.analysed_eq_ofSuffix_iff` — when both ways tell the same language.
-/

namespace CodeAudit

open Text List

namespace Path

variable {ending : List Char}

/-! ## Suffixes of names -/

/-- A name with a point has a last point. -/
lemma exists_last_point {cs : List Char} (h : '.' ∈ cs) : ∃ stem tail, cs = stem ++ '.' :: tail ∧ '.' ∉ tail := by
  obtain ⟨tail, stem, heq, htail⟩ := eq_append_cons_of_mem (mem_reverse.mpr h)
  refine ⟨stem.reverse, tail.reverse, ?_, by simpa using htail⟩
  rw [← reverse_reverse cs, heq]
  simp

/-- A name is split at its last point, unless nothing stands before or behind it. -/
lemma splitName_eq {name : String} {stem tail : List Char} (hname : name.toList = stem ++ '.' :: tail)
    (htail : '.' ∉ tail) :
    splitName name =
      if stem = [] ∨ tail = [] then (name, "") else (String.ofList stem, String.ofList ('.' :: tail)) := by
  have hback : (name.toList.reverse.takeWhile (· != '.')).reverse = tail := by
    rw [hname, reverse_append, reverse_cons, append_assoc,
      takeWhile_append_of_pos fun c hc => by simpa using fun h : c = '.' => htail (h ▸ mem_reverse.mp hc)]
    simp
  have hfront : name.toList.take (name.toList.length - tail.length - 1) = stem := by
    rw [hname, length_append, length_cons, show stem.length + (tail.length + 1) - tail.length - 1 = stem.length by omega]
    simp
  unfold splitName
  simp only [hback, hfront]
  cases stem <;> cases tail <;> simp [hname]

lemma splitName_of_no_point {name : String} (h : '.' ∉ name.toList) : splitName name = (name, "") := by
  simp [splitName, h]

/-! ## Endings in lower case -/

section Point

variable {p : Path} {ending stem tail : List Char} (hname : p.name.toList = stem ++ '.' :: tail) (htail : '.' ∉ tail)

include hname htail

lemma lower_suffix_iff (hne : ending ≠ []) :
    lower p.suffix = String.ofList ('.' :: ending) ↔ stem ≠ [] ∧ lowerAfter ['.'] tail = ending := by
  rw [suffix, splitName_eq hname htail]
  split_ifs with hcut
  · refine iff_of_false (by simp [lower, lowerAfter]) ?_
    rintro ⟨hstem, rfl⟩
    obtain rfl := hcut.resolve_left hstem
    exact hne rfl
  · rw [lower, String.toList_ofList, String.ofList_inj, lowerAfter_point, cons_inj_right]
    simp [(not_or.mp hcut).1]

lemma lower_name_iff (hending : IsPlain ending) :
    lower p.name = String.ofList ('.' :: ending) ↔ stem = [] ∧ lowerAfter ['.'] tail = ending := by
  rw [lower, hname, String.ofList_inj, lowerAfter_eq_ending_iff hending htail]

end Point

/-- A text that has no point behind its last slash has no ending. -/
lemma not_ending_lowerAfter {dirs name : List Char} (hending : IsPlain ending) (hname : '.' ∉ name) :
    ¬ '.' :: ending <:+ lowerAfter [] (dirs ++ '/' :: name) := by
  intro hends
  have hpoint : '.' ∈ dirs ++ '/' :: name :=
    (mem_lowerAfter_iff (by decide) _ _).mp (hends.subset mem_cons_self)
  obtain ⟨front, tail, htext, htail⟩ := exists_last_point hpoint
  have hlower : lowerAfter ['.'] tail = ending := by
    rw [htext] at hends
    exact (ending_lowerAfter_iff hending htail _ _).mp hends
  -- the last point stands before the last slash, which is in the ending then
  have hslash : '/' ∈ tail := by
    have hfrom : '.' :: tail <:+ dirs ++ '/' :: name := htext ▸ suffix_append _ _
    rcases suffix_or_suffix_of_suffix hfrom (suffix_append dirs ('/' :: name)) with hshort | hlong
    · exact absurd (hshort.subset mem_cons_self) (by simpa using hname)
    · simpa using hlong.subset mem_cons_self
  exact hending.not_mem (by decide) (hlower ▸ (mem_lowerAfter_iff (by decide) _ _).mpr hslash)

/-- **The end of a path is the suffix of its name or the name itself**, where all are in lower case. -/
lemma endsWith_lower_iff {p : Path} {text : String} {dirs : List Char}
    (htext : text.toList = dirs ++ '/' :: p.name.toList) (hending : IsPlain ending) (hne : ending ≠ []) :
    endsWith (lower text) (String.ofList ('.' :: ending)) = true ↔
      lower p.suffix = String.ofList ('.' :: ending) ∨ lower p.name = String.ofList ('.' :: ending) := by
  rw [endsWith_iff, String.toList_ofList, lower, String.toList_ofList, htext]
  by_cases hpoint : '.' ∈ p.name.toList
  · obtain ⟨stem, tail, hname, htail⟩ := exists_last_point hpoint
    have hcut : dirs ++ '/' :: p.name.toList = (dirs ++ '/' :: stem) ++ '.' :: tail := by simp [hname]
    rw [hcut, ending_lowerAfter_iff hending htail, lower_suffix_iff hname htail hne,
      lower_name_iff hname htail hending]
    tauto
  · refine iff_of_false (not_ending_lowerAfter hending hpoint) ?_
    rintro (hsuffix | hname)
    · rw [suffix, splitName_of_no_point hpoint] at hsuffix
      simp [lower, lowerAfter] at hsuffix
    · rw [lower, String.ofList_inj] at hname
      exact hpoint ((mem_lowerAfter_iff (by decide) _ _).mp (hname ▸ mem_cons_self))

/-- A name that is nothing but an ending has no suffix. -/
lemma lower_suffix_of_name {p : Path} (hending : IsPlain ending)
    (h : lower p.name = String.ofList ('.' :: ending)) : lower p.suffix = "" := by
  have hpoint : '.' ∈ p.name.toList := by
    rw [lower, String.ofList_inj] at h
    exact (mem_lowerAfter_iff (by decide) _ _).mp (h ▸ mem_cons_self)
  obtain ⟨stem, tail, hname, htail⟩ := exists_last_point hpoint
  obtain ⟨rfl, -⟩ := (lower_name_iff hname htail hending).mp h
  rw [suffix, splitName_eq hname htail]
  rfl

end Path

namespace Language

variable {p : Path}

/-- The endings by which an analysis tells a language. -/
def endings : List String := [".py", ".js", ".ts"]

/-- **The language of a name that is nothing but an ending.** -/
def bare? (p : Path) : Option Language :=
  let name := lower p.name
  if name = ".py" then some python
  else if name = ".js" then some javascript
  else if name = ".ts" then some typescript
  else none

/-- The suffixes that only a scan knows. -/
def listedOnly : List String := [".mjs", ".cjs", ".tsx"]

/-- **A file of which the two ways tell different languages.** -/
def Divided (p : Path) : Prop :=
  (bare? p).isSome ∨ lower p.suffix ∈ listedOnly

instance : DecidablePred Divided := fun p =>
  inferInstanceAs (Decidable ((bare? p).isSome ∨ lower p.suffix ∈ listedOnly))

/-- **The language in which a file is analysed**, told by its name. -/
def analysed (p : Path) : Language :=
  (bare? p).getD (if lower p.suffix ∈ listedOnly then unknown else ofSuffix p)

/-- The endings are plain. -/
lemma exists_plain_of_mem_endings : ∀ e ∈ endings, ∃ ending, e = String.ofList ('.' :: ending) ∧
    IsPlain ending ∧ ending ≠ [] := by
  simp only [endings, forall_mem_cons]
  exact ⟨⟨['p', 'y'], rfl, ⟨by simp [IsMark], by simp⟩, by simp⟩,
    ⟨['j', 's'], rfl, ⟨by simp [IsMark], by simp⟩, by simp⟩,
    ⟨['t', 's'], rfl, ⟨by simp [IsMark], by simp⟩, by simp⟩, by simp⟩

/-- A name is nothing but an ending exactly if it is one of them in lower case. -/
lemma isSome_bare?_iff : (bare? p).isSome ↔ lower p.name ∈ endings := by
  unfold bare? endings
  dsimp only
  split_ifs <;> simp_all

/-- A name that is nothing but an ending has no suffix. -/
lemma lower_suffix_of_bare (h : (bare? p).isSome) : lower p.suffix = "" := by
  obtain ⟨ending, hending, hplain, -⟩ := exists_plain_of_mem_endings _ (isSome_bare?_iff.mp h)
  exact Path.lower_suffix_of_name hplain hending

/-- **What an analysis tells.** -/
lemma ofEnding_eq_analysed {text : String} {dirs : List Char}
    (htext : text.toList = dirs ++ '/' :: p.name.toList) : ofEnding text = analysed p := by
  have hends : ∀ e ∈ endings, endsWith (lower text) e =
      decide (lower p.suffix = e ∨ lower p.name = e) := by
    intro e he
    obtain ⟨ending, rfl, hplain, hne⟩ := exists_plain_of_mem_endings e he
    rw [Bool.eq_iff_iff, decide_eq_true_iff]
    exact Path.endsWith_lower_iff htext hplain hne
  simp only [endings, forall_mem_cons] at hends
  obtain ⟨hpy, hjs, hts, -⟩ := hends
  unfold ofEnding analysed
  simp only [hpy, hjs, hts, decide_eq_true_eq]
  by_cases hbare : (bare? p).isSome
  · rw [lower_suffix_of_bare hbare]
    rw [isSome_bare?_iff] at hbare
    simp only [endings, mem_cons, not_mem_nil, or_false] at hbare
    rcases hbare with hname | hname | hname <;> simp [bare?, hname]
  · have hnames : lower p.name ∉ endings := fun h => hbare (isSome_bare?_iff.mpr h)
    simp only [endings, mem_cons, not_mem_nil, or_false, not_or] at hnames
    rw [Option.not_isSome_iff_eq_none.mp hbare, Option.getD_none]
    simp only [hnames, or_false, ofSuffix, listedOnly]
    generalize lower p.suffix = suffix
    by_cases hsuffix : suffix ∈ [".mjs", ".cjs", ".tsx"]
    · simp only [mem_cons, not_mem_nil, or_false] at hsuffix
      rcases hsuffix with rfl | rfl | rfl <;> simp
    · simp only [mem_cons, not_mem_nil, or_false, not_or] at hsuffix
      -- the two ways ask for the endings in another order
      by_cases hts : suffix = ".ts" <;> simp [hsuffix, hts]

/-- **When both ways tell the same language.** -/
lemma analysed_eq_ofSuffix_iff (p : Path) : analysed p = ofSuffix p ↔ ¬ Divided p := by
  unfold analysed Divided
  by_cases hbare : (bare? p).isSome
  · refine iff_of_false ?_ (not_not.mpr (.inl hbare))
    have hsuffix : ofSuffix p = unknown := by simp [ofSuffix, lower_suffix_of_bare hbare]
    rw [isSome_bare?_iff] at hbare
    simp only [endings, mem_cons, not_mem_nil, or_false] at hbare
    rcases hbare with hname | hname | hname <;> simp [bare?, hname, hsuffix]
  · rw [Option.not_isSome_iff_eq_none.mp hbare, Option.getD_none]
    simp only [Option.isSome_none, Bool.false_eq_true, false_or]
    split_ifs with hsuffix
    · refine iff_of_false ?_ (not_not.mpr hsuffix)
      simp only [listedOnly, mem_cons, not_mem_nil, or_false] at hsuffix
      rcases hsuffix with heq | heq | heq <;> simp [ofSuffix, heq]
    · exact iff_of_true rfl hsuffix

end Language

end CodeAudit
