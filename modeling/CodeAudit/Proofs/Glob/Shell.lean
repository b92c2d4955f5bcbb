import Mathlib
import CodeAudit.Glob.Shell

/-!
# What shell patterns match

A star stands for any text, slashes included, and a plain character for itself. So a pattern that is written to find a
name at any depth asks for a slash before it, and one that is written for everything in a directory asks for a slash
behind it.

## Main definitions

* `Shell.Plain` — a character that stands for itself.

## Main results

* `Shell.fits_ending_iff` — what a pattern for an ending matches.
* `Shell.fits_folder_iff`, `Shell.fits_top_folder_iff` — what patterns for directories match.
-/

namespace CodeAudit.Shell

open List

/-! ## Parts -/

/-- A character that stands for itself. -/
def Plain (c : Char) : Prop :=
  c ≠ '*' ∧ c ≠ '?' ∧ c ≠ '['

lemma parseChars_star (rest : List Char) : parseChars ('*' :: rest) = .star :: parseChars rest := by
  rw [parseChars]

/-- Plain characters stand for themselves. -/
lemma parseChars_plain {text : List Char} (h : ∀ c ∈ text, Plain c) (rest : List Char) :
    parseChars (text ++ rest) = text.map .char ++ parseChars rest := by
  induction text with
  | nil => rfl
  | cons c text ih =>
    obtain ⟨hstar, hany, hclass⟩ := h c mem_cons_self
    rw [cons_append, parseChars, ih fun d hd => h d (mem_cons_of_mem _ hd), map_cons, cons_append]
    · exact hstar
    · exact hany
    · exact hclass

/-! ## Texts -/

variable {parts : List Part} {s : List Char}

@[simp] lemma accepts_nil_iff : accepts [] s = true ↔ s = [] := by
  rw [accepts, List.isEmpty_iff]

/-- **A star stands for any text.** -/
lemma accepts_star_iff :
    accepts (.star :: parts) s = true ↔ ∃ front back, s = front ++ back ∧ accepts parts back = true := by
  induction s with
  | nil =>
    rw [accepts]
    constructor
    · intro h
      exact ⟨[], [], rfl, h⟩
    · rintro ⟨front, back, happend, h⟩
      rwa [(append_eq_nil_iff.mp happend.symm).2] at h
  | cons c s ih =>
    rw [accepts, Bool.or_eq_true, ih]
    constructor
    · rintro (h | ⟨front, back, rfl, h⟩)
      · exact ⟨[], c :: s, rfl, h⟩
      · exact ⟨c :: front, back, rfl, h⟩
    · rintro ⟨front, back, happend, h⟩
      cases front with
      | nil => exact .inl (by rwa [happend])
      | cons d front => exact .inr ⟨front, back, (cons.inj happend).2, h⟩

/-- **Plain characters stand for themselves.** -/
lemma accepts_plain_iff {text : List Char} :
    accepts (text.map .char ++ parts) s = true ↔ ∃ rest, s = text ++ rest ∧ accepts parts rest = true := by
  induction text generalizing s with
  | nil => simp
  | cons c text ih =>
    cases s with
    | nil => simp [accepts]
    | cons d s =>
      rw [map_cons, cons_append, accepts, Bool.and_eq_true, ih]
      · simp only [Part.admits, beq_iff_eq, cons_append, cons.injEq]
        constructor
        · rintro ⟨rfl, rest, rfl, h⟩
          exact ⟨rest, ⟨rfl, rfl⟩, h⟩
        · rintro ⟨rest, ⟨rfl, rfl⟩, h⟩
          exact ⟨rfl, rest, rfl, h⟩
      · simp

/-- Two stars are as good as one. -/
lemma accepts_stars_iff :
    accepts (.star :: .star :: parts) s = true ↔ ∃ front back, s = front ++ back ∧ accepts parts back = true := by
  simp only [accepts_star_iff]
  constructor
  · rintro ⟨front, _, rfl, middle, back, rfl, h⟩
    exact ⟨front ++ middle, back, by simp, h⟩
  · rintro ⟨front, back, rfl, h⟩
    exact ⟨front, back, rfl, [], back, rfl, h⟩

/-- Two stars at the end match everything. -/
lemma accepts_stars : accepts [.star, .star] s = true :=
  accepts_stars_iff.mpr ⟨s, [], by simp, by simp⟩

/-! ## Patterns -/

section Patterns

variable {text : String}

/-- **A pattern for an ending at any depth** matches a text in which a slash stands somewhere before the ending. -/
lemma fits_ending_iff {ending : String} (h : ∀ c ∈ ending.toList, Plain c) :
    fits ("**/*" ++ ending) text = true ↔ ∃ front back, text.toList = front ++ '/' :: (back ++ ending.toList) := by
  have hparse : parse ("**/*" ++ ending) =
      .star :: .star :: (['/'].map .char ++ .star :: (ending.toList.map .char ++ [])) := by
    have hstars : ("**/*" ++ ending).toList = '*' :: '*' :: (['/'] ++ '*' :: (ending.toList ++ [])) := by simp
    rw [parse, hstars, parseChars_star, parseChars_star, parseChars_plain (by simp [Plain]), parseChars_star,
      parseChars_plain h, parseChars]
  rw [fits, hparse, accepts_stars_iff]
  simp only [accepts_plain_iff, accepts_star_iff, accepts_nil_iff]
  constructor
  · rintro ⟨front, _, htext, _, rfl, back, _, rfl, _, rfl, rfl⟩
    exact ⟨front, back, by simpa using htext⟩
  · rintro ⟨front, back, htext⟩
    exact ⟨front, _, htext, _, rfl, back, _, rfl, [], by simp, rfl⟩

/-- **A pattern for a directory at the top** matches a text that starts with its name and a slash. -/
lemma fits_top_folder_iff {name : String} (h : ∀ c ∈ name.toList, Plain c) :
    fits (name ++ "/**") text = true ↔ ∃ back, text.toList = name.toList ++ '/' :: back := by
  have hparse : parse (name ++ "/**") = (name.toList ++ ['/']).map .char ++ [.star, .star] := by
    have hchars : (name ++ "/**").toList = (name.toList ++ ['/']) ++ ['*', '*'] := by simp
    rw [parse, hchars, parseChars_plain, parseChars_star, parseChars_star, parseChars]
    rw [forall_mem_append]
    exact ⟨h, by simp [Plain]⟩
  rw [fits, hparse, accepts_plain_iff]
  simp [accepts_stars]

/-- **A pattern for a directory at any depth** matches a text in which its name stands between slashes. -/
lemma fits_folder_iff {name : String} (h : ∀ c ∈ name.toList, Plain c) :
    fits ("**/" ++ name ++ "/**") text = true ↔
      ∃ front back, text.toList = front ++ '/' :: (name.toList ++ '/' :: back) := by
  have hparse : parse ("**/" ++ name ++ "/**") =
      .star :: .star :: ((['/'] ++ name.toList ++ ['/']).map .char ++ [.star, .star]) := by
    have hchars : ("**/" ++ name ++ "/**").toList = '*' :: '*' :: ((['/'] ++ name.toList ++ ['/']) ++ ['*', '*']) := by
      simp
    rw [parse, hchars, parseChars_star, parseChars_star, parseChars_plain, parseChars_star, parseChars_star, parseChars]
    rw [forall_mem_append, forall_mem_append]
    exact ⟨⟨by simp [Plain], h⟩, by simp [Plain]⟩
  rw [fits, hparse, accepts_stars_iff]
  simp only [accepts_plain_iff, accepts_stars, and_true]
  constructor
  · rintro ⟨front, _, htext, back, rfl⟩
    exact ⟨front, back, by simpa using htext⟩
  · rintro ⟨front, back, htext⟩
    exact ⟨front, _, htext, back, by simp⟩

end Patterns

end CodeAudit.Shell
