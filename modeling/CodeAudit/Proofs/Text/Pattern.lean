import Mathlib
import CodeAudit.Text.Pattern

/-!
# The texts that patterns stand for

A pattern is run with backtracking and hands each way to match it to what follows. Whatever it hands on, what it passed
is one of the texts that the pattern stands for. All matches in a text are found from the left, none inside another.

## Main definitions

* `Text.Pattern.Matches` — the texts that a pattern stands for.
* `Text.Pattern.Leftmost` — the leftmost matches in a text.

## Main results

* `Text.Pattern.leftmost_matchAllFrom` — all matches in a text are the leftmost ones.
* `Text.Pattern.run_many_one` — a repetition of characters of a class is as long as possible.
-/

namespace CodeAudit.Text.Pattern

open List

variable {next : Next} {c d : Cursor} {p : Pattern}

/-- **The texts that a pattern stands for.** What a pattern asks of the text around it is left aside. -/
inductive Matches : Pattern → List Char → Prop
  | empty : Matches empty []
  | one {p : Char → Bool} {x : Char} (h : p x = true) : Matches (one p) [x]
  | seq {a b : Pattern} {s t : List Char} (ha : Matches a s) (hb : Matches b t) : Matches (seq a b) (s ++ t)
  | altLeft {a b : Pattern} {s : List Char} (h : Matches a s) : Matches (alt a b) s
  | altRight {a b : Pattern} {s : List Char} (h : Matches b s) : Matches (alt a b) s
  | manyNil {a : Pattern} : Matches (many a) []
  | manyCons {a : Pattern} {s t : List Char} (ha : Matches a s) (hmore : Matches (many a) t) :
      Matches (many a) (s ++ t)
  | part {name : ℕ} {a : Pattern} {s : List Char} (h : Matches a s) : Matches (part name a) s
  | lineStart : Matches lineStart []
  | textEnd : Matches textEnd []

/-! ## Runs -/

/-- What is handed on was reached by passing a text that the pattern stands for. -/
def Passes (p : Pattern) (c : Cursor) (next : Next) (d : Cursor) : Prop :=
  ∃ s c', Matches p s ∧ c.rest = s ++ c'.rest ∧ next c' = some d

/-- A repetition passes as many texts as its steps do.

**Proof sketch.** Induction on the number of steps that are left. A step that succeeds was followed by a shorter
repetition; if none does, nothing is passed. -/
lemma passes_of_iterate {a : Pattern} {step : Cursor → Next → Option Cursor}
    (hstep : ∀ c next d, step c next = some d → Passes a c next d) {left : List Char}
    (h : iterate step next left c = some d) : Passes (many a) c next d := by
  induction left generalizing c with
  | nil => exact ⟨[], c, .manyNil, rfl, h⟩
  | cons x left ih =>
    rw [iterate] at h
    split at h
    · rename_i e hmore
      obtain ⟨s, c', hs, hrest, hnext⟩ := hstep _ _ _ hmore
      dsimp only at hnext
      split_ifs at hnext
      obtain ⟨t, c'', ht, hrest', hdone⟩ := ih (hnext.trans h)
      exact ⟨s ++ t, c'', .manyCons hs ht, by rw [hrest, hrest', append_assoc], hdone⟩
    · exact ⟨[], c, .manyNil, rfl, h⟩

/-- **A run that succeeds passed a text that the pattern stands for.** -/
theorem exists_of_run (h : p.run c next = some d) : Passes p c next d := by
  induction p generalizing c d next with
  | empty => exact ⟨[], c, .empty, rfl, h⟩
  | one p =>
    rw [run] at h
    split at h
    · rename_i x rest hrest
      split_ifs at h with hp
      exact ⟨[x], ⟨rest, some x, c.passed + 1, c.parts⟩, .one hp, hrest, h⟩
    · cases h
  | seq a b iha ihb =>
    obtain ⟨s, c', hs, hrest, hb⟩ := iha h
    obtain ⟨t, c'', ht, hrest', hnext⟩ := ihb hb
    exact ⟨s ++ t, c'', .seq hs ht, by rw [hrest, hrest', append_assoc], hnext⟩
  | alt a b iha ihb =>
    rw [run] at h
    split at h
    · rename_i e ha
      obtain ⟨s, c', hs, hrest, hnext⟩ := iha ha
      exact ⟨s, c', .altLeft hs, hrest, hnext.trans h⟩
    · obtain ⟨s, c', hs, hrest, hnext⟩ := ihb h
      exact ⟨s, c', .altRight hs, hrest, hnext⟩
  | many a ih => exact passes_of_iterate (fun _ _ _ hstep => ih hstep) h
  | part name a ih =>
    obtain ⟨s, c', hs, hrest, hnext⟩ := ih h
    exact ⟨s, { c' with parts := (name, c.rest.take (c'.passed - c.passed)) :: c'.parts }, .part hs, hrest, hnext⟩
  | lineStart =>
    rw [run] at h
    split_ifs at h
    exact ⟨[], c, .lineStart, rfl, h⟩
  | textEnd =>
    rw [run] at h
    split_ifs at h
    exact ⟨[], c, .textEnd, rfl, h⟩

/-- A text at whose start a pattern is found starts with a text that the pattern stands for. -/
lemma exists_of_match? {s : List Char} (h : (p.match? (Cursor.ofText s)).isSome) :
    ∃ front back, Matches p front ∧ s = front ++ back := by
  obtain ⟨d, hd⟩ := Option.isSome_iff_exists.mp h
  obtain ⟨front, c', hfront, hrest, -⟩ := exists_of_run hd
  exact ⟨front, c'.rest, hfront, hrest⟩

/-! ## The texts of composed patterns -/

section

variable {a b : Pattern} {s : List Char}

@[simp] lemma matches_empty_iff : Matches empty s ↔ s = [] := by
  constructor
  · rintro ⟨⟩
    rfl
  · rintro rfl
    exact .empty

@[simp] lemma matches_char_iff {c : Char} : Matches (char c) s ↔ s = [c] := by
  constructor
  · rintro ⟨⟩
    rename_i x hx
    obtain rfl : x = c := by simpa using hx
    rfl
  · rintro rfl
    exact .one (by simp)

@[simp] lemma matches_seq_iff :
    Matches (seq a b) s ↔ ∃ front back, s = front ++ back ∧ Matches a front ∧ Matches b back := by
  constructor
  · rintro ⟨⟩
    rename_i front back ha hb
    exact ⟨front, back, rfl, ha, hb⟩
  · rintro ⟨front, back, rfl, ha, hb⟩
    exact .seq ha hb

@[simp] lemma matches_optional_iff : Matches (optional a) s ↔ Matches a s ∨ s = [] := by
  constructor
  · rintro ⟨⟩
    · exact .inl ‹_›
    · exact .inr (matches_empty_iff.mp ‹_›)
  · rintro (h | rfl)
    · exact .altLeft h
    · exact .altRight .empty

@[simp] lemma matches_textEnd_iff : Matches textEnd s ↔ s = [] := by
  constructor
  · rintro ⟨⟩
    rfl
  · rintro rfl
    exact .textEnd

end

/-! ## Leftmost matches -/

/-- **The leftmost matches in a text**, none inside another: `P` tells the texts that match, and each match is the first
one behind the match before it. -/
inductive Leftmost (P : List Char → Prop) : List Char → List (List Char) → Prop
  | none {s : List Char} (h : ∀ part, P part → ¬ part <:+: s) : Leftmost P s []
  | found {front part back : List Char} {parts : List (List Char)} (hpart : P part)
      (hfirst : ∀ front' part' back', P part' → front ++ part ++ back = front' ++ part' ++ back' →
        front.length ≤ front'.length)
      (hrest : Leftmost P back parts) : Leftmost P (front ++ part ++ back) (part :: parts)

namespace Leftmost

variable {P : List Char → Prop} {s : List Char} {parts : List (List Char)}

lemma of_mem (h : Leftmost P s parts) {part : List Char} (hpart : part ∈ parts) : P part := by
  induction h with
  | none => cases hpart
  | found hfound _ _ ih =>
    rcases mem_cons.mp hpart with rfl | hpart
    · exact hfound
    · exact ih hpart

/-- There are no matches exactly if no text that matches occurs. -/
lemma eq_nil_iff (h : Leftmost P s parts) : parts = [] ↔ ∀ part, P part → ¬ part <:+: s := by
  cases h with
  | none h => simpa using h
  | @found front part back parts hpart =>
    simp only [cons_ne_nil, false_iff]
    exact fun h => h part hpart ⟨front, back, rfl⟩

/-- A character at which no match begins changes nothing. -/
lemma cons {x : Char} (hno : ∀ part, P part → ¬ part <+: x :: s) (h : Leftmost P s parts) :
    Leftmost P (x :: s) parts := by
  cases h with
  | none h =>
    refine .none fun part hpart hinfix => ?_
    rcases infix_cons_iff.mp hinfix with hprefix | hinfix
    · exact hno part hpart hprefix
    · exact h part hpart hinfix
  | @found front part back parts hpart hfirst hrest =>
    have hfirst' : ∀ front' part' back', P part' → x :: front ++ part ++ back = front' ++ part' ++ back' →
        (x :: front).length ≤ front'.length := by
      intro front' part' back' hpart' heq
      cases front' with
      | nil => exact absurd ⟨back', heq.symm⟩ (hno part' hpart')
      | cons y front' =>
        have hle := hfirst front' part' back' hpart' (cons.inj heq).2
        simpa using hle
    exact .found hpart hfirst' hrest

end Leftmost

/-- Every match was found at some place. -/
lemma exists_of_mem_matchAllFrom {before : Option Char} {gap : ℕ} {s : List Char}
    (h : d ∈ p.matchAllFrom before gap s) : ∃ s' before', p.match? ⟨s', before', 0, []⟩ = some d := by
  induction s generalizing before gap with
  | nil =>
    cases gap with
    | zero => exact ⟨[], before, Option.mem_toList.mp h⟩
    | succ gap => cases h
  | cons x s ih =>
    cases gap with
    | succ gap => exact ih h
    | zero =>
      rw [matchAllFrom] at h
      split at h
      · rename_i c hc
        rcases mem_cons.mp h with rfl | h
        · exact ⟨x :: s, before, hc⟩
        · exact ih h
      · exact ih h

/-- Characters that a match still covers are passed. -/
lemma matchAllFrom_gap (p : Pattern) (before : Option Char) (part rest : List Char) :
    ∃ before', p.matchAllFrom before part.length (part ++ rest) = p.matchAllFrom before' 0 rest := by
  induction part generalizing before with
  | nil => exact ⟨before, rfl⟩
  | cons x part ih =>
    rw [length_cons, cons_append, matchAllFrom]
    exact ih _

/-- **All matches in a text are the leftmost ones**, for a pattern that at each place either passes one of the texts that
match, or finds that none of them begins there. -/
lemma leftmost_matchAllFrom {P : List Char → Prop} {read : Cursor → List Char}
    (hsome : ∀ {s before d}, p.match? ⟨s, before, 0, []⟩ = some d →
      P (read d) ∧ s = read d ++ d.rest ∧ d.passed = (read d).length ∧ read d ≠ [])
    (hnone : ∀ {s before}, p.match? ⟨s, before, 0, []⟩ = none → ∀ part, P part → ¬ part <+: s)
    (s : List Char) (before : Option Char) : Leftmost P s ((p.matchAllFrom before 0 s).map read) := by
  induction hlength : s.length using Nat.strong_induction_on generalizing s before with
  | _ n ih =>
    cases s with
    | nil =>
      have hmatch : p.match? ⟨[], before, 0, []⟩ = none := by
        cases hd : p.match? ⟨[], before, 0, []⟩ with
        | none => rfl
        | some d =>
          obtain ⟨-, hread, -, hne⟩ := hsome hd
          exact absurd (append_eq_nil_iff.mp hread.symm).1 hne
      rw [matchAllFrom, hmatch]
      refine .none fun part hpart hinfix => hnone hmatch part hpart ?_
      rw [infix_nil.mp hinfix]
    | cons x s =>
      rw [matchAllFrom]
      cases hd : p.match? ⟨x :: s, before, 0, []⟩ with
      | none => exact (ih s.length (by simp [← hlength]) s _ rfl).cons (hnone hd)
      | some d =>
        obtain ⟨hpart, hread, hpassed, hne⟩ := hsome hd
        obtain ⟨y, part, hy⟩ := exists_cons_of_ne_nil hne
        rw [hy, cons_append, cons.injEq] at hread
        obtain ⟨rfl, rfl⟩ := hread
        obtain ⟨before', hgap⟩ := p.matchAllFrom_gap (some x) part d.rest
        have hlast : d.passed - 1 = part.length := by rw [hpassed, hy, length_cons, Nat.add_sub_cancel]
        have hrest := ih d.rest.length (by simp [← hlength]) d.rest before' rfl
        have hfound : Leftmost P ([] ++ read d ++ d.rest) (read d :: (p.matchAllFrom before' 0 d.rest).map read) :=
          .found hpart (fun _ _ _ _ _ => Nat.zero_le _) hrest
        dsimp only
        rw [hlast, hgap, map_cons]
        rwa [nil_append, hy, cons_append, ← hy] at hfound

/-! ## Characters of a class -/

@[simp] lemma run_one_nil (p : Char → Bool) (before : Option Char) (passed : ℕ) (parts : List (ℕ × List Char))
    (next : Next) : (one p).run ⟨[], before, passed, parts⟩ next = none := rfl

@[simp] lemma run_one_cons (p : Char → Bool) (x : Char) (rest : List Char) (before : Option Char) (passed : ℕ)
    (parts : List (ℕ × List Char)) (next : Next) :
    (one p).run ⟨x :: rest, before, passed, parts⟩ next =
      if p x then next ⟨rest, some x, passed + 1, parts⟩ else none := rfl

/-- **A repetition of characters of a class** goes on behind the last of them, if nothing can go on before one. -/
lemma run_many_one {p : Char → Bool} (hstop : ∀ d x rest, d.rest = x :: rest → p x = true → next d = none)
    (s : List Char) (before : Option Char) (passed : ℕ) (parts : List (ℕ × List Char)) :
    ∃ before', (many (one p)).run ⟨s, before, passed, parts⟩ next =
      next ⟨s.dropWhile p, before', passed + (s.takeWhile p).length, parts⟩ := by
  induction s generalizing before passed with
  | nil => exact ⟨before, rfl⟩
  | cons x s ih =>
    change ∃ before', iterate (fun c next => (one p).run c next) next (x :: s) ⟨x :: s, before, passed, parts⟩ = _
    rw [iterate, run_one_cons]
    by_cases hx : p x = true
    · -- nothing goes on before `x`, so the outcome is that of going on behind it
      obtain ⟨before', hs⟩ := ih (some x) (passed + 1)
      change iterate (fun c next => (one p).run c next) next s ⟨s, some x, passed + 1, parts⟩ = _ at hs
      have hnext : next ⟨x :: s, before, passed, parts⟩ = none := hstop _ _ _ rfl hx
      refine ⟨before', ?_⟩
      rw [if_pos hx, if_pos (Nat.lt_succ_self _), hs, hnext, dropWhile_cons_of_pos hx,
        takeWhile_cons_of_pos hx, length_cons, Nat.add_right_comm passed 1, Nat.add_assoc]
      split <;> simp_all
    · refine ⟨before, ?_⟩
      rw [if_neg hx, dropWhile_cons_of_neg hx, takeWhile_cons_of_neg hx]
      rfl

end CodeAudit.Text.Pattern
