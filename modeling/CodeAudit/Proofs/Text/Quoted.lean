import CodeAudit.Proofs.Json

/-!
# Quoted text as a code

A character inside quotes stands for itself or is escaped, and the letter of an escape tells how many digits follow it.
So one can tell where the code of a character ends, and where quoted text ends: no quoted text is the beginning of
another one.

## Main definitions

* `Text.readChar` — reads the code of a character.

## Main results

* `Text.readChar_quotedChar` — a code is read back.
* `Text.quoted_append_inj` — quoted text tells the text and where it ends.
-/

namespace CodeAudit.Text

open List

/-! ## Hexadecimal digits -/

/-- The number that some hexadecimal digits stand for. -/
def hexValue (digits : List Char) : ℕ :=
  digits.foldl (fun n c => 16 * n + (Json.hexDigit? c).getD 0) 0

lemma hexValue_concat (digits : List Char) (c : Char) :
    hexValue (digits ++ [c]) = 16 * hexValue digits + (Json.hexDigit? c).getD 0 := by
  simp [hexValue]

lemma hexValue_toDigits (n : ℕ) : hexValue (Nat.toDigits 16 n) = n := by
  induction n using Nat.strong_induction_on with
  | _ n ih =>
    rcases lt_or_ge n 16 with hless | hmore
    · rw [Nat.toDigits_of_lt_base hless, hexValue, foldl_cons, foldl_nil, Json.hexDigit?_digitChar n hless]
      simp
    · have hlast : n % 16 < 16 := Nat.mod_lt n (by decide)
      rw [Nat.toDigits_of_base_le (by decide) hmore, hexValue_concat, ih (n / 16) (by omega),
        Json.hexDigit?_digitChar _ hlast, Option.getD_some]
      omega

lemma hexValue_hexDigits (width n : ℕ) : hexValue (hexDigits width n) = n := by
  have hzeros : ∀ k, hexValue (replicate k '0') = 0 := by
    intro k
    induction k with
    | zero => rfl
    | succ k ih =>
      rw [replicate_succ', hexValue_concat, ih]
      rfl
  rw [hexDigits, hexValue, foldl_append]
  change List.foldl _ (hexValue _) _ = n
  rw [hzeros]
  exact hexValue_toDigits n

lemma length_hexDigits {width n : ℕ} (hwidth : 0 < width) (hn : n < 16 ^ width) :
    (hexDigits width n).length = width := by
  have hlength := (Nat.length_toDigits_le_iff (by decide) hwidth).mpr hn
  rw [hexDigits, length_append, length_replicate]
  omega

/-! ## Characters -/

/-- How many digits follow the letter of an escape. -/
def digitsAfter (letter : Char) : ℕ :=
  if letter = 'x' then 2 else if letter = 'u' then 4 else if letter = 'U' then 8 else 0

/-- The character for which an escape stands. -/
def escaped (letter : Char) (digits : List Char) : Char :=
  if letter = 'n' then '\n' else if letter = 'r' then '\r' else if letter = 't' then '\t'
  else if digitsAfter letter = 0 then letter else Char.ofNat (hexValue digits)

/-- **Reads the code of a character**, and tells what follows it. -/
def readChar : List Char → Option (Char × List Char)
  | [] => none
  | c :: rest =>
    if c = '\\' then rest.head?.map fun letter =>
      (escaped letter (rest.tail.take (digitsAfter letter)), rest.tail.drop (digitsAfter letter))
    else some (c, rest)

/-- An escape with digits is read back. -/
lemma readChar_digits {letter : Char} {width : ℕ} (hletter : digitsAfter letter = width) (hwidth : 0 < width) {c : Char}
    (hc : c.toNat < 16 ^ width) (rest : List Char) :
    readChar ('\\' :: letter :: hexDigits width c.toNat ++ rest) = some (c, rest) := by
  have hlength := length_hexDigits hwidth hc
  have hshort : letter ≠ 'n' ∧ letter ≠ 'r' ∧ letter ≠ 't' := by
    refine ⟨?_, ?_, ?_⟩ <;> rintro rfl <;> exact hwidth.ne hletter
  simp only [readChar, cons_append, if_true, head?_cons, Option.map_some, tail_cons, hletter,
    Option.some.injEq, Prod.mk.injEq]
  refine ⟨?_, drop_left' hlength⟩
  rw [take_left' hlength, escaped, if_neg hshort.1, if_neg hshort.2.1, if_neg hshort.2.2, hletter, if_neg hwidth.ne',
    hexValue_hexDigits, Char.ofNat_toNat]

section Quote

variable {quote : Char} (hquote : quote = '\'' ∨ quote = '"')

include hquote

/-- **A code is read back.** -/
lemma readChar_quotedChar (c : Char) (rest : List Char) : readChar (quotedChar quote c ++ rest) = some (c, rest) := by
  have hself : ∀ d, digitsAfter d = 0 → d ≠ 'n' → d ≠ 'r' → d ≠ 't' →
      readChar (['\\', d] ++ rest) = some (d, rest) := by
    intro d hdigits hn hr ht
    simp [readChar, escaped, hdigits, hn, hr, ht]
  unfold quotedChar
  split_ifs with hspecial hn hr ht hprintable hshort hmiddle
  · simp only [Bool.or_eq_true, beq_iff_eq] at hspecial
    rcases hspecial with rfl | rfl
    · rcases hquote with rfl | rfl <;> exact hself _ rfl (by decide) (by decide) (by decide)
    · exact hself _ rfl (by decide) (by decide) (by decide)
  · obtain rfl := eq_of_beq hn
    rfl
  · obtain rfl := eq_of_beq hr
    rfl
  · obtain rfl := eq_of_beq ht
    rfl
  · simp only [Bool.or_eq_true, beq_iff_eq, not_or] at hspecial
    simp [readChar, hspecial.2]
  · exact readChar_digits rfl (by decide) hshort rest
  · exact readChar_digits rfl (by decide) hmiddle rest
  · have hvalid : c.toNat < 0x110000 := by
      have := Json.not_surrogate c
      omega
    have hfits : c.toNat < 16 ^ 8 := by omega
    exact readChar_digits rfl (by decide) hfits rest

/-- No code begins as the quotes do. -/
lemma quotedChar_append_ne (c : Char) (rest rest' : List Char) : quotedChar quote c ++ rest ≠ quote :: rest' := by
  have hne : '\\' ≠ quote := by
    rintro rfl
    exact absurd hquote (by decide)
  intro h
  unfold quotedChar at h
  split_ifs at h with hspecial
  all_goals simp_all

/-- The codes of some characters, up to the closing quote, tell the characters and what follows. -/
lemma flatMap_quotedChar_inj {cs ds rest rest' : List Char}
    (h : cs.flatMap (quotedChar quote) ++ quote :: rest = ds.flatMap (quotedChar quote) ++ quote :: rest') :
    cs = ds ∧ rest = rest' := by
  induction cs generalizing ds with
  | nil =>
    cases ds with
    | nil => exact ⟨rfl, by simpa using h⟩
    | cons d ds =>
      rw [flatMap_cons, append_assoc] at h
      exact absurd h.symm (quotedChar_append_ne hquote d _ _)
  | cons c cs ih =>
    cases ds with
    | nil =>
      rw [flatMap_cons, append_assoc] at h
      exact absurd h (quotedChar_append_ne hquote c _ _)
    | cons d ds =>
      rw [flatMap_cons, flatMap_cons, append_assoc, append_assoc] at h
      have hread := congrArg readChar h
      rw [readChar_quotedChar hquote, readChar_quotedChar hquote, Option.some.injEq, Prod.mk.injEq] at hread
      obtain ⟨rfl, hmore⟩ := hread
      obtain ⟨rfl, hrest⟩ := ih hmore
      exact ⟨rfl, hrest⟩

end Quote

/-! ## Texts -/

/-- **Quoted text tells the text and where it ends.** -/
lemma quoted_append_inj {s t : String} {rest rest' : List Char}
    (h : (quoted s).toList ++ rest = (quoted t).toList ++ rest') : s = t ∧ rest = rest' := by
  -- the quotes in use are told by the first character
  have hform : ∀ u : String, ∃ quote, (quote = '\'' ∨ quote = '"') ∧
      (quoted u).toList = quote :: (u.toList.flatMap (quotedChar quote) ++ [quote]) := by
    intro u
    refine ⟨if u.toList.contains '\'' && !u.toList.contains '"' then '"' else '\'', ?_, ?_⟩
    · split_ifs <;> simp
    · simp [quoted]
  obtain ⟨quote, hquote, hs⟩ := hform s
  obtain ⟨quote', -, ht⟩ := hform t
  rw [hs, ht, cons_append, cons_append, cons.injEq] at h
  obtain ⟨rfl, h⟩ := h
  rw [append_assoc, append_assoc, singleton_append, singleton_append] at h
  obtain ⟨hchars, hrest⟩ := flatMap_quotedChar_inj hquote h
  exact ⟨String.toList_injective hchars, hrest⟩

end CodeAudit.Text
