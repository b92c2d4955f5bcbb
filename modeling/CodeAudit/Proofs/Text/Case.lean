import CodeAudit.Proofs.Sequence
import CodeAudit.Text.Case

/-!
# Lower case and endings

Marks such as points and slashes stay what they are in lower case, and nothing else becomes one. Only a capital sigma
looks at the characters around it. Therefore an ending behind a point can be found before or after a text is put in
lower case, whatever stands in front of it.

## Main definitions

* `Text.IsMark` — a character before the letters.
* `Text.IsPlain` — an ending without marks and sigmas.

## Main results

* `Text.mem_lowerAfter_iff` — the marks of a text in lower case are those of the text.
* `Text.ending_lowerAfter_iff` — an ending in lower case is that of what stands behind the last point.
-/

namespace CodeAudit.Text

open List

variable {s tail ending : List Char} {mark : Char}

/-! ## Leading parts and endings -/

/-- What is left behind a leading part. -/
lemma dropLeading?_eq_some_iff {lead rest : List Char} : dropLeading? lead s = some rest ↔ s = lead ++ rest := by
  induction lead generalizing s with
  | nil => simp [dropLeading?]
  | cons c lead ih =>
    cases s with
    | nil => simp [dropLeading?]
    | cons d s =>
      by_cases hc : c = d
      · simp [dropLeading?, hc, ih]
      · simp [dropLeading?, hc, Ne.symm hc]

/-- **What starts with a text.** -/
lemma startsWith_iff {s head : String} : startsWith s head = true ↔ head.toList <+: s.toList := by
  rw [startsWith, Option.isSome_iff_exists]
  simp only [dropLeading?_eq_some_iff]
  exact exists_congr fun rest => eq_comm

/-- **What ends with a text.** -/
lemma endsWith_iff {s tail : String} : endsWith s tail = true ↔ tail.toList <:+ s.toList := by
  rw [endsWith, Option.isSome_iff_exists, ← reverse_prefix]
  simp only [dropLeading?_eq_some_iff]
  exact exists_congr fun rest => eq_comm

lemma occursIn_iff {part : List Char} : occursIn part s = true ↔ part <:+: s := by
  induction s with
  | nil => simp [occursIn]
  | cons c s ih =>
    rw [occursIn, Bool.or_eq_true_iff, Option.isSome_iff_exists, ih, infix_cons_iff]
    simp only [dropLeading?_eq_some_iff]
    exact or_congr_left (exists_congr fun rest => eq_comm)

/-- **What occurs in a text.** -/
lemma contains_iff {s part : String} : contains s part = true ↔ part.toList <:+: s.toList :=
  occursIn_iff

/-! ## Tables of runs -/

namespace Table

variable {α : Type}

/-- What a search finds is in the table. -/
lemma mem_of_floorBetween {t : Table α} {n lo hi : ℕ} {entry : ℕ × α} (h : floorBetween t n lo hi = some entry) :
    entry ∈ t := by
  fun_induction floorBetween t n lo hi with
  | case1 lo hi hlt e he hle ih => exact ih h
  | case2 lo hi hlt e he hle ih => exact ih h
  | case3 lo hi hlt he => cases h
  | case4 hi hlt => cases h
  | case5 lo hi hlt hzero => exact Array.mem_of_getElem? h

/-- What a character is mapped to by runs is not below the image of a run, if it is a character. -/
lemma exists_of_shifted? {t : Table Run} {n : ℕ} {c : Char} (h : t.shifted? n = some c) :
    ∃ entry ∈ t, c.toNat = 0 ∨ entry.2.image ≤ c.toNat := by
  unfold shifted? at h
  split at h
  · rename_i first run hfloor
    refine ⟨_, mem_of_floorBetween hfloor, ?_⟩
    split_ifs at h with hin
    obtain rfl := Option.some.inj h
    rw [Char.toNat_ofNat]
    split_ifs
    · exact .inr (Nat.le_add_right _ _)
    · exact .inl rfl
  · cases h

end Table

/-! ## Marks -/

/-- **A mark**: a character before the letters, such as a point or a slash. -/
def IsMark (c : Char) : Prop :=
  0 < c.toNat ∧ c.toNat < 65

instance : DecidablePred IsMark := fun c => inferInstanceAs (Decidable (0 < c.toNat ∧ c.toNat < 65))

/-- Letters are put in lower case as letters. -/
lemma le_image_of_mem_lowerRuns : ∀ entry ∈ lowerRuns, 65 ≤ entry.2.image := by
  have htable : ∀ entry ∈ lowerRuns.toList, 65 ≤ entry.2.image := by decide +kernel
  exact fun entry hentry => htable entry (Array.mem_toList_iff.mpr hentry)

/-- In ASCII only letters have another lower case, which is a letter too. -/
lemma toLower_cases {c : Char} (hc : c.toNat < 128) :
    c.toLower = c ∨ 65 ≤ c.toNat ∧ 65 ≤ c.toLower.toNat := by
  have htable : ∀ n < 128, (Char.ofNat n).toLower = Char.ofNat n ∨ 65 ≤ n ∧ 65 ≤ (Char.ofNat n).toLower.toNat := by
    decide +kernel
  simpa using htable c.toNat hc

lemma lowerSigma_cases (before after : List Char) : lowerSigma before after = 'ς' ∨ lowerSigma before after = 'σ' := by
  unfold lowerSigma
  split_ifs <;> simp

/-- Nothing but a mark becomes a mark in lower case, and marks stay. -/
lemma mem_lowerChar_iff (hmark : IsMark mark) (before : List Char) (c : Char) (after : List Char) :
    mark ∈ lowerChar before c after ↔ mark = c := by
  obtain ⟨hlow, hhigh⟩ := hmark
  unfold lowerChar
  split_ifs with hascii hsigma hdotted
  · rw [mem_singleton]
    rcases toLower_cases hascii with heq | ⟨hc, hlower⟩
    · rw [heq]
    · refine iff_of_false ?_ ?_
      · rintro rfl
        omega
      · rintro rfl
        omega
  all_goals
    have hne : mark ≠ c := by
      rintro rfl
      omega
    refine iff_of_false ?_ hne
  · rcases lowerSigma_cases before after with heq | heq <;> rw [heq, mem_singleton] <;> rintro rfl <;>
      revert hhigh <;> decide
  · rw [mem_cons, mem_singleton]
    rintro (rfl | rfl) <;> revert hhigh <;> decide
  · rw [mem_singleton]
    rintro rfl
    cases hshifted : lowerRuns.shifted? c.toNat with
    | none =>
      rw [hshifted] at hhigh
      exact hascii (lt_trans hhigh (by decide))
    | some d =>
      rw [hshifted] at hlow hhigh
      obtain ⟨entry, hentry, hd⟩ := Table.exists_of_shifted? hshifted
      have := le_image_of_mem_lowerRuns entry hentry
      simp only [Option.getD_some] at hlow hhigh
      omega

/-- **The marks of a text in lower case are those of the text.** -/
lemma mem_lowerAfter_iff (hmark : IsMark mark) (before s : List Char) : mark ∈ lowerAfter before s ↔ mark ∈ s := by
  induction s generalizing before with
  | nil => simp [lowerAfter]
  | cons c s ih => rw [lowerAfter, mem_append, mem_lowerChar_iff hmark, ih, mem_cons]

/-! ## Endings -/

lemma lowerChar_ne_nil (before : List Char) (c : Char) (after : List Char) : lowerChar before c after ≠ [] := by
  unfold lowerChar
  split_ifs <;> simp

/-- The lower case of a text goes on from one part to the next. -/
lemma exists_lowerAfter_append (before front back : List Char) :
    ∃ lowered, lowerAfter before (front ++ back) = lowered ++ lowerAfter (front.reverse ++ before) back ∧
      (lowered = [] → front = []) := by
  induction front generalizing before with
  | nil => exact ⟨[], rfl, fun h => h⟩
  | cons c front ih =>
    obtain ⟨lowered, hlowered, -⟩ := ih (c :: before)
    refine ⟨lowerChar before c (front ++ back) ++ lowered, ?_, fun h => ?_⟩
    · rw [cons_append, lowerAfter, hlowered]
      simp
    · exact absurd (append_eq_nil_iff.mp h).1 (lowerChar_ne_nil _ _ _)

lemma lowerAfter_point (before s : List Char) : lowerAfter before ('.' :: s) = '.' :: lowerAfter ('.' :: before) s := rfl

/-- **An ending without marks and sigmas.** -/
structure IsPlain (ending : List Char) : Prop where
  no_mark : ∀ c ∈ ending, ¬ IsMark c
  no_sigma : ∀ c ∈ ending, c ≠ 'ς' ∧ c ≠ 'σ'

lemma IsPlain.not_mem (h : IsPlain ending) (hmark : IsMark mark) : mark ∉ ending :=
  fun hmem => h.no_mark mark hmem hmark

/-- A text whose lower case has no sigma has that lower case wherever it stands. -/
lemma lowerAfter_of_no_sigma (hending : ∀ c ∈ ending, c ≠ 'ς' ∧ c ≠ 'σ') {before : List Char}
    (h : lowerAfter before s = ending) (before' : List Char) : lowerAfter before' s = ending := by
  induction s generalizing ending before before' with
  | nil => exact h
  | cons c s ih =>
    subst h
    rw [lowerAfter] at hending ⊢
    have hc : c ≠ 'Σ' := by
      rintro rfl
      have hno := hending (lowerSigma before s) (mem_append_left _ (by simp [lowerChar]))
      rcases lowerSigma_cases before s with heq | heq
      · exact hno.1 heq
      · exact hno.2 heq
    have hchar : lowerChar before' c s = lowerChar before c s := by simp [lowerChar, hc]
    rw [hchar, ih (fun d hd => hending d (mem_append_right _ hd)) rfl, lowerAfter]

/-- **An ending in lower case is that of what stands behind the last point.** -/
lemma ending_lowerAfter_iff (hending : IsPlain ending) (htail : '.' ∉ tail) (before front : List Char) :
    '.' :: ending <:+ lowerAfter before (front ++ '.' :: tail) ↔ lowerAfter ['.'] tail = ending := by
  obtain ⟨lowered, hlowered, -⟩ := exists_lowerAfter_append before front ('.' :: tail)
  rw [hlowered, lowerAfter_point]
  set around := '.' :: (front.reverse ++ before)
  have hsame : lowerAfter around tail = ending ↔ lowerAfter ['.'] tail = ending :=
    ⟨fun h => lowerAfter_of_no_sigma hending.no_sigma h _, fun h => lowerAfter_of_no_sigma hending.no_sigma h _⟩
  rw [← hsame]
  constructor
  · rintro ⟨front', heq⟩
    -- both points are the last one
    have hpoint : '.' ∉ lowerAfter around tail := by rwa [mem_lowerAfter_iff (by decide)]
    exact (Sequence.append_cons_inj_last (hending.not_mem (by decide)) hpoint heq).2.symm
  · rintro rfl
    exact suffix_append _ _

/-- A text in lower case is a point with an ending exactly if the text starts with its last point and ends so. -/
lemma lowerAfter_eq_ending_iff {stem : List Char} (hending : IsPlain ending) (htail : '.' ∉ tail) :
    lowerAfter [] (stem ++ '.' :: tail) = '.' :: ending ↔ stem = [] ∧ lowerAfter ['.'] tail = ending := by
  constructor
  · intro h
    obtain ⟨lowered, hlowered, hnil⟩ := exists_lowerAfter_append [] stem ('.' :: tail)
    rw [hlowered, lowerAfter_point] at h
    have hpoint : '.' ∉ lowerAfter ('.' :: (stem.reverse ++ [])) tail := by rwa [mem_lowerAfter_iff (by decide)]
    obtain ⟨rfl, hlower⟩ :=
      Sequence.append_cons_inj_last hpoint (hending.not_mem (by decide)) (h.trans (nil_append _).symm)
    obtain rfl := hnil rfl
    exact ⟨rfl, hlower⟩
  · rintro ⟨rfl, rfl⟩
    rfl

end CodeAudit.Text
