import Mathlib
import CodeAudit.Detect.Fingerprint

/-!
# Renamed texts

A text is a row of parts: names, numbers, blanks between them, and other characters that stand for themselves. Names are
spelled anew, numbers are changed and blanks are stretched or replaced in a renamed text, but the kinds of its parts stay
the same. The tokens of a text depend on the kinds of its parts only, so they survive every renaming.

## Main definitions

* `Fingerprint.partsOf` — the parts of a text, each as long as possible.
* `Fingerprint.Renames` — a text with other spellings of names, numbers and blanks.

## Main results

* `Fingerprint.tokensFrom_spelled` — the tokens of a text, from the kinds of its parts.
* `Fingerprint.tokens_of_renames` — a renamed text has the same tokens.
-/

namespace CodeAudit.Fingerprint

open Text List

/-! ## Parts -/

/-- What a part of a text is, without its spelling. -/
inductive Kind
  | name
  | number
  | blank
  | other (c : Char)
deriving DecidableEq

/-- A part of a text. -/
inductive Part
  | name (first : Char) (rest : List Char) (hfirst : isNameStart first = true) (hrest : ∀ c ∈ rest, isNameChar c = true)
  | number (first : Char) (rest : List Char) (h : ∀ c ∈ first :: rest, c.isDigit = true)
  | blank (first : Char) (rest : List Char) (h : ∀ c ∈ first :: rest, isBlank c = true)
  /-- A character outside of all words and blanks. -/
  | other (c : Char) (h : isNameChar c = false ∧ isBlank c = false)

variable {cs : List Char} {k : Kind} {c d : Char}

namespace Part

/-- The kind of a part. -/
def kind : Part → Kind
  | name .. => .name
  | number .. => .number
  | blank .. => .blank
  | other c _ => .other c

/-- How a part is spelled. -/
def spelling : Part → List Char
  | name first rest .. => first :: rest
  | number first rest _ => first :: rest
  | blank first rest _ => first :: rest
  | other c _ => [c]

end Part

/-- The text that parts make. -/
def spelled (parts : List Part) : List Char :=
  parts.flatMap Part.spelling

@[simp] lemma spelled_cons (p : Part) (ps : List Part) : spelled (p :: ps) = p.spelling ++ spelled ps := by
  simp [spelled]

/-- A character of a name starts one or is a digit. -/
lemma isNameChar_eq (c : Char) : isNameChar c = (isNameStart c || c.isDigit) := by
  simp only [isNameChar, isNameStart, Char.isAlphanum]
  cases c.isAlpha <;> cases c.isDigit <;> simp

/-- **The parts of a text**: words and rows of blanks are taken as long as possible. -/
def partsOf (cs : List Char) : List Part :=
  match cs with
  | [] => []
  | c :: rest =>
    if hname : isNameStart c = true then
      .name c (rest.takeWhile isNameChar) hname (fun _ => mem_takeWhile_imp) :: partsOf (rest.dropWhile isNameChar)
    else if hdigit : c.isDigit = true then
      .number c (rest.takeWhile Char.isDigit) (forall_mem_cons.mpr ⟨hdigit, fun _ => mem_takeWhile_imp⟩) ::
        partsOf (rest.dropWhile Char.isDigit)
    else if hblank : isBlank c = true then
      .blank c (rest.takeWhile isBlank) (forall_mem_cons.mpr ⟨hblank, fun _ => mem_takeWhile_imp⟩) ::
        partsOf (rest.dropWhile isBlank)
    else .other c ⟨by simp [isNameChar_eq, hname, hdigit], by simpa using hblank⟩ :: partsOf rest
termination_by cs.length
decreasing_by
  all_goals
    have := length_dropWhile_le isNameChar rest
    have := length_dropWhile_le Char.isDigit rest
    have := length_dropWhile_le isBlank rest
    simp only [length_cons]
    omega

/-- The parts of a text make the text. -/
@[simp] lemma spelled_partsOf (cs : List Char) : spelled (partsOf cs) = cs := by
  fun_induction partsOf cs with
  | case1 => rfl
  | case2 c rest hname ih => simp [Part.spelling, ih]
  | case3 c rest hname hdigit ih => simp [Part.spelling, ih]
  | case4 c rest hname hdigit hblank ih => simp [Part.spelling, ih]
  | case5 c rest hname hdigit hblank ih => simp [Part.spelling, ih]

/-- Two kinds of parts that may be neighbours: a name would go on in a name or a number behind it, and a number in a
number. -/
def Apart : Kind → Kind → Prop
  | .name, .name => False
  | .name, .number => False
  | .number, .number => False
  | _, _ => True

/-- What the first part of a text is, by the first character. -/
lemma kind_head_partsOf (h : ((partsOf cs).map Part.kind).head? = some k) :
    ∃ c, cs.head? = some c ∧ (k = .name → isNameStart c = true) ∧ (k = .number → c.isDigit = true) := by
  unfold partsOf at h
  split at h
  · simp at h
  · rename_i c rest
    refine ⟨c, rfl, ?_⟩
    split_ifs at h with hname hdigit hblank <;> obtain rfl : _ = k := by simpa [Part.kind] using h
    · exact ⟨fun _ => hname, by simp⟩
    · exact ⟨by simp, fun _ => hdigit⟩
    · exact ⟨by simp, by simp⟩
    · exact ⟨by simp, by simp⟩

/-- Behind the longest row of characters of a class stands none of them. -/
lemma not_class_of_head? {p : Char → Bool} (h : (cs.dropWhile p).head? = some c) : p c = false := by
  have hstop := head?_dropWhile_not p cs
  rw [h] at hstop
  simpa using hstop

/-- **The parts of a text may be neighbours**, because words are taken as long as possible. -/
lemma isChain_partsOf (cs : List Char) : ((partsOf cs).map Part.kind).IsChain Apart := by
  fun_induction partsOf cs with
  | case1 => exact .nil
  | case2 c rest hname ih =>
    refine isChain_cons.mpr ⟨fun k hk => ?_, ih⟩
    obtain ⟨d, hd, hstart, hdigit⟩ := kind_head_partsOf hk
    have hstop := not_class_of_head? hd
    rw [isNameChar_eq, Bool.or_eq_false_iff] at hstop
    cases k with
    | name => exact absurd (hstart rfl) (by simp [hstop.1])
    | number => exact absurd (hdigit rfl) (by simp [hstop.2])
    | blank => trivial
    | other d => trivial
  | case3 c rest hname hdigit ih =>
    refine isChain_cons.mpr ⟨fun k hk => ?_, ih⟩
    obtain ⟨d, hd, -, hdigit⟩ := kind_head_partsOf hk
    cases k with
    | number => exact absurd (hdigit rfl) (by simp [not_class_of_head? hd])
    | name => trivial
    | blank => trivial
    | other d => trivial
  | case4 c rest hname hdigit hblank ih => exact isChain_cons.mpr ⟨fun k hk => trivial, ih⟩
  | case5 c rest hname hdigit hblank ih => exact isChain_cons.mpr ⟨fun k hk => trivial, ih⟩

/-! ## Characters and what they can belong to -/

/-- A text of ASCII characters. -/
def IsAscii (cs : List Char) : Prop :=
  ∀ c ∈ cs, c.toNat < 128

/-- The digits among the ASCII characters are those from zero to nine. -/
lemma isDecimal_of_ascii (h : c.toNat < 128) : isDecimal c = c.isDigit := by
  unfold isDecimal digitValue?
  rw [if_pos h]
  cases c.isDigit <;> rfl

lemma isDecimal_of_isDigit (h : c.isDigit = true) : isDecimal c = true := by
  have hle : c.toNat ≤ '9'.toNat := (Char.isDigit_iff_toNat.mp h).2
  rw [isDecimal_of_ascii (hle.trans_lt (by decide)), h]

/-- No name starts with a digit. -/
lemma isNameStart_of_isDigit (h : c.isDigit = true) : isNameStart c = false := by
  have hle : c.toNat ≤ '9'.toNat := (Char.isDigit_iff_toNat.mp h).2
  have hall : ∀ n ≤ '9'.toNat, (Char.ofNat n).isDigit = true → isNameStart (Char.ofNat n) = false := by decide
  rw [← Char.ofNat_toNat c] at h ⊢
  exact hall _ hle h

/-- The characters of pairs. -/
lemma of_isPair (h : isPair c d = true) : c ∈ ['=', '!', '<', '>', '&', '|'] ∧ d ∈ ['=', '&', '|'] := by
  have hpairs : [c, d] ∈ ["==", "!=", "<=", ">=", "&&", "||"].map String.toList := by
    obtain ⟨s, hs, heq⟩ : ∃ s ∈ ["==", "!=", "<=", ">=", "&&", "||"], String.ofList [c, d] = s := by
      simpa [isPair] using h
    exact mem_map.mpr ⟨s, hs, by rw [← heq, String.toList_ofList]⟩
  have hall : ∀ cs ∈ ["==", "!=", "<=", ">=", "&&", "||"].map String.toList,
      cs.head? ∈ ['=', '!', '<', '>', '&', '|'].map some ∧ cs.getLast? ∈ ['=', '&', '|'].map some := by decide
  simpa using hall _ hpairs

/-- Blanks stand outside of words and are no marks. -/
lemma of_isBlank (h : isBlank c = true) (hascii : c.toNat < 128) :
    isNameChar c = false ∧ isSingle c = false := by
  have hall : ∀ n < 128, isBlank (Char.ofNat n) = true →
      isNameChar (Char.ofNat n) = false ∧ isSingle (Char.ofNat n) = false := by decide
  rw [← Char.ofNat_toNat c] at h ⊢
  exact hall _ hascii h

/-- A character outside of words starts none. -/
lemma starts_no_word (h : isNameChar c = false) (hascii : c.toNat < 128) :
    isNameStart c = false ∧ isDecimal c = false := by
  rw [isNameChar_eq, Bool.or_eq_false_iff] at h
  exact ⟨h.1, by rw [isDecimal_of_ascii hascii, h.2]⟩

/-- No pair ends in a character of a name, and none has a blank. -/
lemma isPair_eq_false (h : isNameChar d = true ∨ isBlank d = true ∨ isBlank c = true) :
    isPair c d = false := by
  have hfirst : ∀ c ∈ ['=', '!', '<', '>', '&', '|'], isBlank c = false := by simp [isBlank]
  have hsecond : ∀ d ∈ ['=', '&', '|'], isNameChar d = false ∧ isBlank d = false := by
    simp [isNameChar, isBlank]
  by_contra hpair
  obtain ⟨hc, hd⟩ := of_isPair (by simpa using hpair)
  simp [hfirst c hc, hsecond d hd] at h

/-! ## Reading -/

/-- The word that a reader is inside of behind a part. -/
def Kind.word : Kind → Option Word
  | name => some .name
  | number => some .number
  | _ => none

/-- **The tokens of a text, from the kinds of its parts.** -/
def tokensOf : List Kind → List Token
  | [] => []
  | .name :: rest => .name :: tokensOf rest
  | .number :: rest => .number :: tokensOf rest
  | .blank :: rest => tokensOf rest
  | .other c :: .other d :: rest =>
    if isPair c d then .mark (String.ofList [c, d]) :: tokensOf rest
    else if isSingle c then .mark (String.singleton c) :: tokensOf (.other d :: rest)
    else tokensOf (.other d :: rest)
  | .other c :: rest => if isSingle c then .mark (String.singleton c) :: tokensOf rest else tokensOf rest

/-- A reader inside of a name passes over its characters. -/
lemma tokensFrom_nameChars (h : ∀ c ∈ cs, isNameChar c = true) (more : List Char) :
    tokensFrom (some .name) (cs ++ more) = tokensFrom (some .name) more := by
  induction cs with
  | nil => rfl
  | cons c cs ih =>
    have hc := h c mem_cons_self
    rw [cons_append, tokensFrom.eq_def, ← ih fun d hd => h d (mem_cons_of_mem _ hd)]
    simp [hc]

/-- A reader inside of a number passes over its digits. -/
lemma tokensFrom_digits (h : ∀ c ∈ cs, c.isDigit = true) (more : List Char) :
    tokensFrom (some .number) (cs ++ more) = tokensFrom (some .number) more := by
  induction cs with
  | nil => rfl
  | cons c cs ih =>
    have hc := isDecimal_of_isDigit (h c mem_cons_self)
    rw [cons_append, tokensFrom.eq_def, ← ih fun d hd => h d (mem_cons_of_mem _ hd)]
    simp [hc]

/-- A name begins where the reader is in no name. -/
lemma tokensFrom_nameStart {word : Option Word} (hword : word ≠ some .name) (hc : isNameStart c = true)
    (hascii : c.toNat < 128) (rest : List Char) :
    tokensFrom word (c :: rest) = .name :: tokensFrom (some .name) rest := by
  have hdigit : isDecimal c = false := by
    rw [isDecimal_of_ascii hascii]
    by_contra hdigit
    simp [isNameStart_of_isDigit (by simpa using hdigit)] at hc
  rw [tokensFrom.eq_def]
  simp [hword, hc, hdigit]

/-- A number begins where the reader is in no word. -/
lemma tokensFrom_digit {word : Option Word} (hname : word ≠ some .name) (hnumber : word ≠ some .number)
    (hc : c.isDigit = true) (rest : List Char) :
    tokensFrom word (c :: rest) = .number :: tokensFrom (some .number) rest := by
  rw [tokensFrom.eq_def]
  simp [hname, hnumber, isNameStart_of_isDigit hc, isDecimal_of_isDigit hc]

/-- A character outside of words ends every word. It is a mark by itself or nothing, if it forms no pair with the next
one. -/
lemma tokensFrom_other (hc : isNameChar c = false) (hascii : c.toNat < 128) (word : Option Word)
    {rest : List Char} (hrest : ∀ d, rest.head? = some d → isPair c d = false) :
    tokensFrom word (c :: rest) =
      if isSingle c then .mark (String.singleton c) :: tokensFrom none rest else tokensFrom none rest := by
  obtain ⟨hstart, hdigit⟩ := starts_no_word hc hascii
  rw [tokensFrom.eq_def]
  cases rest with
  | nil => simp [hc, hdigit, hstart, tokensFrom]
  | cons d more => simp [hc, hdigit, hstart, hrest d rfl]

lemma tokensFrom_pair (hc : isNameChar c = false) (hascii : c.toNat < 128) (hpair : isPair c d = true)
    (word : Option Word) (rest : List Char) :
    tokensFrom word (c :: d :: rest) = .mark (String.ofList [c, d]) :: tokensFrom none rest := by
  obtain ⟨hstart, hdigit⟩ := starts_no_word hc hascii
  rw [tokensFrom.eq_def]
  simp [hc, hdigit, hstart, hpair]

/-- A reader passes over blanks, and is in no word behind them. -/
lemma tokensFrom_blanks {c : Char} {cs : List Char} (h : ∀ d ∈ c :: cs, isBlank d = true)
    (hascii : IsAscii (c :: cs))
    (word : Option Word) (more : List Char) : tokensFrom word (c :: cs ++ more) = tokensFrom none more := by
  have hblank := forall_mem_cons.mp h
  have hlow := forall_mem_cons.mp hascii
  obtain ⟨hname, hsingle⟩ := of_isBlank hblank.1 hlow.1
  have hfirst : ∀ rest, tokensFrom word (c :: rest) = tokensFrom none rest := by
    intro rest
    rw [tokensFrom_other hname hlow.1 word fun d _ => isPair_eq_false (.inr (.inr hblank.1)), if_neg (by simp [hsingle])]
  rw [cons_append, hfirst]
  cases cs with
  | nil => rfl
  | cons d cs => exact tokensFrom_blanks hblank.2 hlow.2 none more

/-- A character forms a pair with the next one only if that stands for itself. -/
lemma isPair_head_spelled {ps : List Part} (h : ∀ d, (ps.map Part.kind).head? = some (.other d) → isPair c d = false)
    (hd : (spelled ps).head? = some d) : isPair c d = false := by
  cases ps with
  | nil => simp [spelled] at hd
  | cons p ps =>
    cases p with
    | name first rest hfirst hrest =>
      obtain rfl : first = d := by simpa [Part.spelling] using hd
      exact isPair_eq_false (.inl (by simp [isNameChar_eq, hfirst]))
    | number first rest hall =>
      obtain rfl : first = d := by simpa [Part.spelling] using hd
      exact isPair_eq_false (.inl (by simp [isNameChar_eq, hall]))
    | blank first rest hall =>
      obtain rfl : first = d := by simpa [Part.spelling] using hd
      exact isPair_eq_false (.inr (.inl (hall _ mem_cons_self)))
    | other first hfirst =>
      obtain rfl : first = d := by simpa [Part.spelling] using hd
      exact h first rfl

/-- A character that forms no pair with the next one is read by itself. -/
lemma tokensOf_other {ks : List Kind} (h : ∀ d, ks.head? = some (.other d) → isPair c d = false) :
    tokensOf (.other c :: ks) = if isSingle c then .mark (String.singleton c) :: tokensOf ks else tokensOf ks := by
  cases ks with
  | nil => rfl
  | cons k ks =>
    cases k with
    | other d => rw [tokensOf, if_neg (by simp [h d rfl])]
    | name => rfl
    | number => rfl
    | blank => rfl

/-- Before a name, the reader is in no name. -/
lemma word_of_apart_name (h : Apart k .name) : k.word ≠ some .name := by
  cases k with
  | name => exact h.elim
  | number => simp [Kind.word]
  | blank => simp [Kind.word]
  | other c => simp [Kind.word]

/-- Before a number, the reader is in no word. -/
lemma word_of_apart_number (h : Apart k .number) : k.word ≠ some .name ∧ k.word ≠ some .number := by
  cases k with
  | name => exact h.elim
  | number => exact h.elim
  | blank => simp [Kind.word]
  | other c => simp [Kind.word]

/-- **The tokens of a text, from the kinds of its parts**, where `k` is the kind of the part that was read before.

**Proof sketch.** Induction on the parts. A word is read to its end, because no part that could go on with it stands
behind it; blanks are passed over. A character that stands for itself forms a pair only with another such character, so
whether it does is told by the kinds. -/
lemma tokensFrom_spelled (k : Kind) (ps : List Part) (hchain : (k :: ps.map Part.kind).IsChain Apart)
    (hascii : IsAscii (spelled ps)) : tokensFrom k.word (spelled ps) = tokensOf (ps.map Part.kind) := by
  match ps with
  | [] => rfl
  | p :: ps =>
    obtain ⟨hapart, hchain⟩ := isChain_cons_cons.mp hchain
    rw [spelled_cons] at hascii ⊢
    have hrest : IsAscii (spelled ps) := fun c hc => hascii c (mem_append_right _ hc)
    have ih := tokensFrom_spelled p.kind ps hchain hrest
    match p with
    | .name first rest hfirst hname =>
      change tokensFrom k.word (first :: (rest ++ spelled ps)) = .name :: tokensOf (ps.map Part.kind)
      rw [tokensFrom_nameStart (word_of_apart_name hapart) hfirst (hascii first (by simp [Part.spelling])),
        tokensFrom_nameChars hname]
      exact congrArg _ ih
    | .number first rest hall =>
      obtain ⟨hname, hnumber⟩ := word_of_apart_number hapart
      have hall := forall_mem_cons.mp hall
      change tokensFrom k.word (first :: (rest ++ spelled ps)) = .number :: tokensOf (ps.map Part.kind)
      rw [tokensFrom_digit hname hnumber hall.1, tokensFrom_digits hall.2]
      exact congrArg _ ih
    | .blank first rest hall =>
      change tokensFrom k.word (first :: rest ++ spelled ps) = tokensOf (ps.map Part.kind)
      rw [tokensFrom_blanks hall fun c hc => hascii c (mem_append_left _ hc)]
      exact ih
    | .other c hc =>
      have hlow : c.toNat < 128 := hascii c (by simp [Part.spelling])
      change tokensFrom k.word (c :: spelled ps) = tokensOf (.other c :: ps.map Part.kind)
      by_cases hpair : ∃ d hd qs, ps = .other d hd :: qs ∧ isPair c d = true
      · -- the next character is read with this one
        obtain ⟨d, hd, qs, rfl, hpair⟩ := hpair
        rw [spelled_cons] at hrest ⊢
        have ih := tokensFrom_spelled (.other d) qs (isChain_cons_cons.mp hchain).2
          fun c hc => hrest c (mem_append_right _ hc)
        change tokensFrom k.word (c :: d :: spelled qs) = tokensOf (.other c :: .other d :: qs.map Part.kind)
        rw [tokensFrom_pair hc.1 hlow hpair, tokensOf, if_pos hpair]
        exact congrArg _ ih
      · have halone : ∀ d, (ps.map Part.kind).head? = some (.other d) → isPair c d = false := by
          intro d hd
          obtain ⟨q, qs, rfl⟩ : ∃ q qs, ps = q :: qs := exists_cons_of_ne_nil (by rintro rfl; simp at hd)
          cases q with
          | other e he =>
            obtain rfl : e = d := by simpa [Part.kind] using hd
            by_contra hne
            exact hpair ⟨e, he, qs, rfl, by simpa using hne⟩
          | name | number | blank => simp [Part.kind] at hd
        change tokensFrom none _ = _ at ih
        rw [tokensFrom_other hc.1 hlow _ fun d => isPair_head_spelled halone, tokensOf_other halone, ih]

/-! ## Renaming -/

/-- **A renamed text**: its parts are of the same kinds as those of another text, so only names, numbers and blanks may be
spelled in another way. -/
def Renames (s t : String) : Prop :=
  ∃ parts : List Part, parts.map Part.kind = (partsOf s.toList).map Part.kind ∧ t.toList = spelled parts

/-- **A renamed text has the same tokens.** -/
lemma tokens_of_renames {s t : String} (hs : IsAscii s.toList) (ht : IsAscii t.toList) (h : Renames s t) :
    tokens t = tokens s := by
  obtain ⟨parts, hkinds, hspelled⟩ := h
  have hfirst : ∀ ks : List Kind, ks.IsChain Apart → (Kind.blank :: ks).IsChain Apart :=
    fun ks hks => isChain_cons.mpr ⟨fun _ _ => trivial, hks⟩
  have hchain := hfirst _ (isChain_partsOf s.toList)
  have hold := tokensFrom_spelled .blank (partsOf s.toList) hchain (by rwa [spelled_partsOf])
  have hnew := tokensFrom_spelled .blank parts (hkinds ▸ hchain) (hspelled ▸ ht)
  rw [spelled_partsOf, ← hkinds, ← hnew, ← hspelled] at hold
  exact hold.symm

end CodeAudit.Fingerprint
