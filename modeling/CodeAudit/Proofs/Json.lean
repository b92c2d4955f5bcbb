import CodeAudit.Json.Reader
import CodeAudit.Json.Writer
import CodeAudit.Proofs.Datum

/-!
# Reading back what was written as JSON

Texts are written in ASCII, with escapes for all other characters, and nested values on indented lines. For values
that are made of texts, lists and dictionaries, reading gives back what was written, whatever characters the texts
have.

The reader counts its steps down from a bound. The length of what was written of a value is bound enough for reading
that value, and the induction runs with this bound: what is written of an item is shorter than what is written of the
list that holds it.

## Main definitions

* `Json.Textual` — values that are made of texts, lists and dictionaries.
* `Json.Spells` — a value is read from a text, whatever follows the text.

## Main results

* `Json.Textual.spells` — what is written of a value spells it.
* `Json.read?_pretty` — reading what was written gives the value.
-/

namespace CodeAudit.Json

open List

variable {n level : ℕ} {rest s : List Char} {c o : Char} {opening closing : String} {items : List Datum} {d : Datum}
  {text : Datum → List Char} {entries : List (String × Datum)}

/-! ## Escaped units -/

lemma hexDigit?_digitChar : ∀ k < 16, hexDigit? (Nat.digitChar k) = some k := by
  decide

/-- The four digits of a 16-bit unit. -/
lemma hexDigits_four (hn : n < 0x10000) : Text.hexDigits 4 n =
      [(n / 4096).digitChar, (n / 256 % 16).digitChar, (n / 16 % 16).digitChar, (n % 16).digitChar] := by
  have hmore : ∀ {m : ℕ}, 16 ≤ m → Nat.toDigits 16 m = Nat.toDigits 16 (m / 16) ++ [(m % 16).digitChar] :=
    fun h => Nat.toDigits_of_base_le (by decide) h
  have hless : ∀ {m : ℕ}, m < 16 → Nat.toDigits 16 m = [m.digitChar] := fun h => Nat.toDigits_of_lt_base h
  have h256 : n / 16 / 16 = n / 256 := Nat.div_div_eq_div_mul n 16 16
  have h4096 : n / 256 / 16 = n / 4096 := Nat.div_div_eq_div_mul n 256 16
  unfold Text.hexDigits
  rcases lt_or_ge n 16 with h | h
  · have hzero : n / 4096 = 0 ∧ n / 256 % 16 = 0 ∧ n / 16 % 16 = 0 ∧ n % 16 = n := by omega
    rw [hless h, hzero.1, hzero.2.1, hzero.2.2.1, hzero.2.2.2]
    rfl
  rcases lt_or_ge n 256 with h' | h'
  · have hzero : n / 4096 = 0 ∧ n / 256 % 16 = 0 ∧ n / 16 % 16 = n / 16 := by omega
    rw [hmore h, hless (by omega), hzero.1, hzero.2.1, hzero.2.2]
    rfl
  rcases lt_or_ge n 4096 with h'' | h''
  · have hzero : n / 4096 = 0 ∧ n / 256 % 16 = n / 256 := by omega
    rw [hmore h, hmore (by omega), h256, hless (by omega), hzero.1, hzero.2]
    rfl
  · rw [hmore h, hmore (by omega), h256, hmore (by omega), h4096, hless (by omega)]
    rfl

/-- **A unit that was written as an escape is read back.** -/
lemma exists_unitEscape (hn : n < 0x10000) :
    ∃ a b c d, unitEscape n = ['\\', 'u', a, b, c, d] ∧ unit? a b c d = some n := by
  refine ⟨_, _, _, _, by rw [unitEscape, hexDigits_four hn], ?_⟩
  have hvalue : 4096 * (n / 4096) + 256 * (n / 256 % 16) + 16 * (n / 16 % 16) + n % 16 = n := by omega
  rw [unit?, hexDigit?_digitChar _ (by omega), hexDigit?_digitChar _ (by omega), hexDigit?_digitChar _ (by omega),
    hexDigit?_digitChar _ (by omega)]
  exact congrArg some hvalue

/-- Behind an escape the reader looks whether a second one follows; here it finds no malformed one. -/
def WellBegun (s : List Char) : Prop :=
  ∀ a b c d rest, s = '\\' :: 'u' :: a :: b :: c :: d :: rest → ∃ n, unit? a b c d = some n

/-- A unit that is not the first half of a pair is a character by itself. -/
lemma readText?_unitEscape (hn : n < 0x10000) (hhalf : ¬ (0xd800 ≤ n ∧ n < 0xdc00)) (read : List Char)
    (hrest : WellBegun rest) :
    readText? read (unitEscape n ++ rest) = readText? (unitChar n :: read) rest := by
  obtain ⟨a, b, c, d, hescape, hunit⟩ := exists_unitEscape hn
  simp only [hescape, cons_append, nil_append]
  by_cases hsecond : ∃ e f g h more, rest = '\\' :: 'u' :: e :: f :: g :: h :: more
  · obtain ⟨e, f, g, h, more, rfl⟩ := hsecond
    obtain ⟨low, hlow⟩ := hrest e f g h more rfl
    have hno : ¬ (decide (0xd800 ≤ n) && decide (n < 0xdc00) && decide (0xdc00 ≤ low) &&
        decide (low < 0xe000)) = true := by
      simp only [Bool.and_eq_true, decide_eq_true_eq]
      tauto
    rw [readText?.eq_3, hunit]
    simp only [hlow, if_neg hno]
  · rw [readText?.eq_4 read a b c d rest fun e f g h more heq => hsecond ⟨e, f, g, h, more, heq⟩, hunit]

/-- A pair of units is one character. -/
lemma readText?_pair {high low : ℕ} (hhigh : 0xd800 ≤ high ∧ high < 0xdc00) (hlow : 0xdc00 ≤ low ∧ low < 0xe000)
    (read rest : List Char) :
    readText? read (unitEscape high ++ unitEscape low ++ rest) = readText? (pairChar high low :: read) rest := by
  obtain ⟨a, b, c, d, hescape, hunit⟩ := exists_unitEscape (n := high) (by omega)
  obtain ⟨e, f, g, h, hescape', hunit'⟩ := exists_unitEscape (n := low) (by omega)
  simp only [hescape, hescape', cons_append, nil_append]
  rw [readText?.eq_3, hunit]
  simp [hunit', hhigh, hlow]

/-! ## Texts -/

lemma readText?_short {value : Char} (hvalue : shortEscape? c = some value) (hne : c ≠ 'u') (read rest : List Char) :
    readText? read ('\\' :: c :: rest) = readText? (value :: read) rest := by
  rw [readText?.eq_5 read c rest (fun _ _ _ _ _ _ _ _ _ hc _ => hne hc) (fun _ _ _ _ _ hc _ => hne hc), hvalue]

/-- A character is no half of a pair. -/
lemma not_surrogate (c : Char) : c.toNat < 0xd800 ∨ 0xdfff < c.toNat ∧ c.toNat < 0x110000 :=
  c.valid

/-- **How a character is written**: as a short escape, as it is, as one unit, or as a pair of units. -/
lemma quotedChar_cases (c : Char) :
    (∃ e, quotedChar c = ['\\', e] ∧ e ≠ 'u' ∧ shortEscape? e = some c) ∨
      (quotedChar c = [c] ∧ c ≠ '"' ∧ c ≠ '\\' ∧ 32 ≤ c.toNat) ∨
      (quotedChar c = unitEscape c.toNat ∧ c.toNat < 0x10000) ∨
      (quotedChar c = unitEscape (0xd800 + (c.toNat - 0x10000) / 0x400) ++
        unitEscape (0xdc00 + (c.toNat - 0x10000) % 0x400) ∧ 0x10000 ≤ c.toNat) := by
  have hofNat : ∀ n, c.toNat = n → Char.ofNat n = c := fun n hn => by rw [← hn, Char.ofNat_toNat]
  generalize hq : quotedChar c = q
  simp only [quotedChar, beq_iff_eq, Bool.and_eq_true, decide_eq_true_eq] at hq
  split_ifs at hq with hquote hback hfeed hreturn htab hbell hform hplain hunit
  · exact .inl ⟨'"', hq.symm, by decide, by rw [hquote]; rfl⟩
  · exact .inl ⟨'\\', hq.symm, by decide, by rw [hback]; rfl⟩
  · exact .inl ⟨'n', hq.symm, by decide, by rw [hfeed]; rfl⟩
  · exact .inl ⟨'r', hq.symm, by decide, by rw [hreturn]; rfl⟩
  · exact .inl ⟨'t', hq.symm, by decide, by rw [htab]; rfl⟩
  · exact .inl ⟨'b', hq.symm, by decide, by rw [← hofNat 8 hbell]; rfl⟩
  · exact .inl ⟨'f', hq.symm, by decide, by rw [← hofNat 12 hform]; rfl⟩
  · exact .inr (.inl ⟨hq.symm, hquote, hback, hplain.1⟩)
  · exact .inr (.inr (.inl ⟨hq.symm, hunit⟩))
  · exact .inr (.inr (.inr ⟨hq.symm, by omega⟩))

/-- **A character that was written is read back.** -/
lemma readText?_quotedChar (c : Char) (read : List Char) (hrest : WellBegun rest) :
    readText? read (quotedChar c ++ rest) = readText? (c :: read) rest := by
  have hscalar := not_surrogate c
  obtain ⟨e, hc, hne, hshort⟩ | ⟨hc, hquote, hback, hplain⟩ | ⟨hc, hunit⟩ | ⟨hc, hpair⟩ := quotedChar_cases c
  · rw [hc]
    exact readText?_short hshort hne read rest
  · rw [hc, singleton_append, readText?.eq_6 read c rest hquote (fun _ _ _ _ _ _ _ _ _ hc _ => hback hc)
      (fun _ _ _ _ _ hc _ => hback hc) (fun _ _ hc _ => hback hc), if_neg (by omega)]
  · have hchar : unitChar c.toNat = c := by
      rw [unitChar, if_neg (by simp; omega), Char.ofNat_toNat]
    rw [hc, readText?_unitEscape hunit (by omega) read hrest, hchar]
  · -- the two halves of the pair hold the number of the character
    have hnumber : 0x10000 + (0xd800 + (c.toNat - 0x10000) / 0x400 - 0xd800) * 0x400 +
        (0xdc00 + (c.toNat - 0x10000) % 0x400 - 0xdc00) = c.toNat := by omega
    rw [hc, readText?_pair (by omega) (by omega), pairChar, hnumber, Char.ofNat_toNat]

/-- No character is written with a malformed escape. -/
lemma wellBegun_quotedChar (c : Char) (s : List Char) : WellBegun (quotedChar c ++ s) := by
  have hunits : ∀ {n : ℕ} (s : List Char), n < 0x10000 → WellBegun (unitEscape n ++ s) := by
    intro n s hn a b c d rest heq
    obtain ⟨a', b', c', d', hescape, hunit⟩ := exists_unitEscape hn
    simp only [hescape, cons_append, nil_append, cons.injEq, true_and] at heq
    obtain ⟨rfl, rfl, rfl, rfl, -⟩ := heq
    exact ⟨n, hunit⟩
  have hscalar := not_surrogate c
  obtain ⟨e, hc, hne, -⟩ | ⟨hc, -, hback, -⟩ | ⟨hc, hunit⟩ | ⟨hc, hpair⟩ := quotedChar_cases c
  · intro _ _ _ _ _ heq
    rw [hc] at heq
    exact absurd (cons.inj (cons.inj heq).2).1 hne
  · intro _ _ _ _ _ heq
    rw [hc] at heq
    exact absurd (cons.inj heq).1 hback
  · rw [hc]
    exact hunits s hunit
  · rw [hc, append_assoc]
    exact hunits _ (by omega)

/-- **A text that was written is read back.** -/
lemma readText?_quote (s : List Char) (read rest : List Char) :
    readText? read (s.flatMap quotedChar ++ '"' :: rest) = some (String.ofList (read.reverse ++ s), rest) := by
  induction s generalizing read with
  | nil => simp [readText?]
  | cons c s ih =>
    have hbegun : WellBegun (s.flatMap quotedChar ++ '"' :: rest) := by
      cases s with
      | nil => exact fun _ _ _ _ _ heq => absurd (cons.inj heq).1 (by decide)
      | cons d s =>
        rw [flatMap_cons, append_assoc]
        exact wellBegun_quotedChar d _
    rw [flatMap_cons, append_assoc, readText?_quotedChar c read hbegun, ih]
    simp

/-! ## Values -/

/-- Values that are made of texts, lists, and dictionaries whose keys are different texts. -/
inductive Textual : Datum → Prop
  | text (s : String) : Textual (.text s)
  | list {items : List Datum} (h : ∀ d ∈ items, Textual d) : Textual (.list items)
  | object {entries : List (String × Datum)} (hkeys : (entries.map (·.1)).Nodup) (h : ∀ e ∈ entries, Textual e.2) :
      Textual (.object entries)

lemma itemTexts_eq (level : ℕ) (items : List Datum) : prettyAt.itemTexts level items = items.map (prettyAt level) := by
  induction items with
  | nil => rfl
  | cons d items ih => rw [prettyAt.itemTexts, ih, map_cons]

lemma entryTexts_eq (level : ℕ) (entries : List (String × Datum)) :
    prettyAt.entryTexts level (entries.map fun (k, v) => (.text k, v)) =
      entries.map fun (k, v) => quote k ++ ": " ++ prettyAt level v := by
  induction entries with
  | nil => rfl
  | cons e entries ih =>
    rw [map_cons, prettyAt.entryTexts, ih, map_cons]
    rfl

/-- What stands between two items. -/
def separator (level : ℕ) : List Char :=
  ',' :: (lineBreak level).toList

/-- Items on lines of their own, between brackets. -/
lemma toList_enclose (ho : opening.toList = [o]) (hc : closing.toList = [c])
    (level : ℕ) {items : List String} (hne : items ≠ []) :
    (enclose opening closing level items).toList = o :: (lineBreak (level + 1)).toList ++
      ((separator (level + 1)).intercalate (items.map String.toList) ++ ((lineBreak level).toList ++ [c])) := by
  have hsome : items.isEmpty = false := by simpa using hne
  simp [enclose, hsome, ho, hc, String.toList_intercalate, separator]

lemma toList_enclose_nil (ho : opening.toList = [o]) (hc : closing.toList = [c])
    (level : ℕ) : (enclose opening closing level []).toList = [o, c] := by
  simp [enclose, ho, hc]

/-- Blanks before a character that is none are passed over. -/
lemma skipSpace_lineBreak (level : ℕ) (hc : isSpace c = false) :
    skipSpace ((lineBreak level).toList ++ c :: s) = c :: s := by
  rw [lineBreak, String.toList_ofList, skipSpace, cons_append, dropWhile_cons_of_pos (by decide),
    dropWhile_append_of_pos fun x hx => by rw [eq_of_mem_replicate hx]; rfl,
    dropWhile_cons_of_neg (by simp [hc])]

lemma skipSpace_cons (hc : isSpace c = false) : skipSpace (c :: s) = c :: s :=
  dropWhile_cons_of_neg (by simp [hc])

/-- The characters with which a value of this kind can begin. -/
def opensValue (c : Char) : Bool :=
  c == '"' || c == '[' || c == '\x7b'

lemma quote_eq (s : String) (rest : List Char) :
    (quote s).toList ++ rest = '"' :: (s.toList.flatMap quotedChar ++ '"' :: rest) := by
  simp [quote]

/-- A value begins with a quote or a bracket. -/
lemma Textual.exists_head (h : Textual d) (level : ℕ) :
    ∃ c s, (prettyAt level d).toList = c :: s ∧ opensValue c = true := by
  cases h with
  | text s => exact ⟨'"', _, by rw [prettyAt, ← append_nil (quote s).toList, quote_eq], rfl⟩
  | list h =>
    rw [prettyAt, enclose]
    split_ifs
    · exact ⟨'[', _, rfl, rfl⟩
    · exact ⟨'[', _, by simp; rfl, rfl⟩
  | object hkeys h =>
    rw [Datum.object, prettyAt, enclose]
    split_ifs
    · exact ⟨'\x7b', _, rfl, rfl⟩
    · exact ⟨'\x7b', _, by simp; rfl, rfl⟩

lemma isSpace_of_opensValue (h : opensValue c = true) : isSpace c = false := by
  simp only [opensValue, Bool.or_eq_true, beq_iff_eq] at h
  rcases h with (rfl | rfl) | rfl <;> rfl

/-- **A text spells a value** if the value is read from it with no more steps than the text has characters, whatever
follows. -/
def Spells (t : List Char) (d : Datum) : Prop :=
  ∀ bound rest, t.length ≤ bound → readValue? bound (t ++ rest) = some (d, rest)

lemma spells_quote (s : String) : Spells (quote s).toList (.text s) := by
  intro bound rest hbound
  obtain ⟨bound, rfl⟩ : ∃ b, bound = b + 1 := Nat.exists_eq_succ_of_ne_zero (by
    rintro rfl
    simp [quote] at hbound)
  rw [quote_eq, readValue?, readText?_quote]
  simp

/-- Reading the items of a list, one after another. -/
lemma readItems?_intercalate (hne : items ≠ [])
    (hopens : ∀ d ∈ items, ∃ c s, text d = c :: s ∧ opensValue c = true) (h : ∀ d ∈ items, Spells (text d) d)
    (outer bound : ℕ) (rest : List Char)
    (hbound : ((separator level).intercalate (items.map text)).length < bound) :
    readItems? bound ((separator level).intercalate (items.map text) ++ ((lineBreak outer).toList ++ ']' :: rest)) =
      some (items, rest) := by
  induction items generalizing bound with
  | nil => exact absurd rfl hne
  | cons d items ih =>
    obtain ⟨bound, rfl⟩ : ∃ b, bound = b + 1 := Nat.exists_eq_succ_of_ne_zero (by omega)
    have hd := h d mem_cons_self
    cases items with
    | nil =>
      simp only [map_cons, map_nil, intercalate_singleton] at hbound ⊢
      rw [readItems?, hd bound _ (by omega)]
      simp only [skipSpace_lineBreak outer (show isSpace ']' = false from rfl)]
    | cons e items =>
      obtain ⟨c, s, hes, hc⟩ := hopens e (by simp)
      have hmore := ih (by simp) (fun d hd => hopens d (.tail _ hd)) (fun d hd => h d (.tail _ hd))
      have hhead : ∃ s', (separator level).intercalate ((e :: items).map text) = c :: s' := by
        cases items <;> simp [hes]
      obtain ⟨s', hs'⟩ := hhead
      rw [map_cons, map_cons, intercalate_cons_cons, ← map_cons] at hbound ⊢
      simp only [length_append, separator, length_cons] at hbound
      rw [append_assoc, append_assoc, readItems?, hd bound _ (by omega), separator, cons_append]
      simp only [skipSpace_cons (show isSpace ',' = false from rfl)]
      rw [← separator, hs', cons_append, skipSpace_lineBreak level (isSpace_of_opensValue hc), ← cons_append,
        ← hs', hmore bound (by simp only [separator]; omega)]
      simp

/-- A name, and what is written of its value. -/
def entryText (text : Datum → List Char) (e : String × Datum) : List Char :=
  (quote e.1).toList ++ ':' :: ' ' :: text e.2

/-- Reading one entry: its name, the colon, and its value. Behind it the object ends, or a comma follows. -/
lemma readEntries?_entryText {key : String} {value : Datum}
    (hopens : ∃ c s, text value = c :: s ∧ opensValue c = true) (h : Spells (text value) value)
    {seen : List (String × Datum)} (hnew : key ∉ seen.map (·.1)) {bound : ℕ} (hbound : (text value).length ≤ bound)
    (more : List Char) :
    (∀ left, skipSpace more = '\x7d' :: left →
      readEntries? (bound + 1) (Datum.named seen) (entryText text (key, value) ++ more) =
        some (Datum.named (seen ++ [(key, value)]), left)) ∧
    ∀ others, skipSpace more = ',' :: others →
      readEntries? (bound + 1) (Datum.named seen) (entryText text (key, value) ++ more) =
        readEntries? bound (Datum.named (seen ++ [(key, value)])) (skipSpace others) := by
  obtain ⟨c, s, hs, hc⟩ := hopens
  have hvalue : skipSpace (' ' :: (text value ++ more)) = text value ++ more := by
    rw [hs, cons_append, skipSpace, dropWhile_cons_of_pos (by rfl),
      dropWhile_cons_of_neg (by simp [isSpace_of_opensValue hc])]
  rw [entryText, append_assoc, quote_eq, cons_append, cons_append, readEntries?, readText?_quote]
  simp only [reverse_nil, nil_append, String.ofList_toList,
    skipSpace_cons (show isSpace ':' = false from rfl), hvalue, h bound more hbound, Datum.insert_named hnew]
  constructor
  · intro left hleft
    simp only [hleft]
  · intro others hothers
    simp only [hothers]

/-- Reading the entries of an object, one after another, behind those that were read. -/
lemma readEntries?_intercalate
    (hne : entries ≠ []) (hopens : ∀ e ∈ entries, ∃ c s, text e.2 = c :: s ∧ opensValue c = true)
    (h : ∀ e ∈ entries, Spells (text e.2) e.2) (seen : List (String × Datum))
    (hkeys : ((seen ++ entries).map (·.1)).Nodup) (outer bound : ℕ) (rest : List Char)
    (hbound : ((separator level).intercalate (entries.map (entryText text))).length < bound) :
    readEntries? bound (Datum.named seen)
        ((separator level).intercalate (entries.map (entryText text)) ++ ((lineBreak outer).toList ++ '\x7d' :: rest)) =
      some (Datum.named (seen ++ entries), rest) := by
  induction entries generalizing seen bound with
  | nil => exact absurd rfl hne
  | cons e entries ih =>
    obtain ⟨key, value⟩ := e
    obtain ⟨bound, rfl⟩ : ∃ b, bound = b + 1 := Nat.exists_eq_succ_of_ne_zero (by omega)
    have hnew : key ∉ seen.map (·.1) := by
      intro hmem
      rw [map_append, map_cons] at hkeys
      exact disjoint_of_nodup_append hkeys hmem mem_cons_self
    have hlen : (text value).length + 2 ≤ (entryText text (key, value)).length := by
      simp [entryText]
    have hvalue : Spells (text value) value := h _ mem_cons_self
    have hstep := fun hbound =>
      @readEntries?_entryText _ key value (hopens _ mem_cons_self) hvalue _ hnew bound hbound
    cases entries with
    | nil =>
      rw [map_cons, map_nil, intercalate_singleton] at hbound ⊢
      exact (hstep (by omega) _).1 _ (skipSpace_lineBreak outer rfl)
    | cons d entries =>
      have hmore := ih (by simp) (fun d hd => hopens d (.tail _ hd)) (fun d hd => h d (.tail _ hd))
        (seen ++ [(key, value)]) (by simpa using hkeys)
      have hhead : ∃ s, (separator level).intercalate ((d :: entries).map (entryText text)) = '"' :: s := by
        cases entries <;> simp [entryText, quote]
      obtain ⟨s, hs⟩ := hhead
      rw [map_cons, map_cons, intercalate_cons_cons, ← map_cons] at hbound ⊢
      simp only [length_append, separator, length_cons] at hbound
      rw [append_assoc, append_assoc, separator, cons_append,
        (hstep (by omega) _).2 _ (skipSpace_cons rfl), ← separator, hs, cons_append, skipSpace_lineBreak level rfl, ← cons_append, ← hs,
        hmore bound (by simp only [separator]; omega), append_assoc, singleton_append]

/-- A bracket opens a list, and its first item does not close it. -/
lemma readValue?_bracket (hc : opensValue c = true) (bound level : ℕ) (s : List Char) :
    readValue? (bound + 1) ('[' :: ((lineBreak level).toList ++ c :: s)) =
      (readItems? bound (c :: s)).map fun (items, left) => (.list items, left) := by
  rw [readValue?, skipSpace_lineBreak level (isSpace_of_opensValue hc)]
  simp only [opensValue, Bool.or_eq_true, beq_iff_eq] at hc
  rcases hc with (rfl | rfl) | rfl <;> rfl

/-- A brace opens an object, and the name of its first entry does not close it. -/
lemma readValue?_brace (bound level : ℕ) (s : List Char) :
    readValue? (bound + 1) ('\x7b' :: ((lineBreak level).toList ++ '"' :: s)) =
      (readEntries? bound [] ('"' :: s)).map fun (entries, left) => (.dict entries, left) := by
  rw [readValue?, skipSpace_lineBreak level rfl]
  rfl

/-- What is written of a list spells it if what is written of its items does. -/
lemma spells_list (htextual : ∀ d ∈ items, Textual d) (h : ∀ d ∈ items, Spells (prettyAt (level + 1) d).toList d) :
    Spells (prettyAt level (.list items)).toList (.list items) := by
  rw [prettyAt, itemTexts_eq]
  cases items with
  | nil =>
    rw [map_nil, toList_enclose_nil (o := '[') (c := ']') rfl rfl]
    rintro (_ | bound) rest hbound
    · simp at hbound
    · rfl
  | cons d items =>
    obtain ⟨c, s, hs, hc⟩ := (htextual d mem_cons_self).exists_head (level + 1)
    obtain ⟨s', hs'⟩ : ∃ s', (separator (level + 1)).intercalate
        ((d :: items).map fun d => (prettyAt (level + 1) d).toList) = c :: s' := by
      cases items <;> simp [hs]
    rw [toList_enclose (o := '[') (c := ']') rfl rfl level (by simp), map_map, Function.comp_def]
    rintro (_ | bound) rest hbound
    · simp at hbound
    · simp only [length_append, length_cons] at hbound
      rw [cons_append, cons_append, append_assoc, append_assoc, append_assoc, hs',
        cons_append, readValue?_bracket hc, ← cons_append, ← hs', singleton_append,
        readItems?_intercalate (by simp) (fun d hd => (htextual d hd).exists_head _) h _ _ _ (by omega)]
      rfl

/-- What is written of an object spells it if what is written of its values does. -/
lemma spells_object (hkeys : (entries.map (·.1)).Nodup)
    (htextual : ∀ e ∈ entries, Textual e.2) (h : ∀ e ∈ entries, Spells (prettyAt (level + 1) e.2).toList e.2) :
    Spells (prettyAt level (.object entries)).toList (.object entries) := by
  rw [Datum.object, prettyAt, entryTexts_eq]
  cases entries with
  | nil =>
    rw [map_nil, toList_enclose_nil (o := '\x7b') (c := '\x7d') rfl rfl]
    rintro (_ | bound) rest hbound
    · simp at hbound
    · rfl
  | cons e entries =>
    have htexts : ((e :: entries).map fun (k, v) => quote k ++ ": " ++ prettyAt (level + 1) v).map String.toList =
        (e :: entries).map (entryText fun d => (prettyAt (level + 1) d).toList) := by
      rw [map_map]
      refine map_congr_left fun e _ => ?_
      simp [entryText]
    obtain ⟨s, hs⟩ : ∃ s, (separator (level + 1)).intercalate
        ((e :: entries).map (entryText fun d => (prettyAt (level + 1) d).toList)) = '"' :: s := by
      cases entries <;> simp [entryText, quote]
    rw [toList_enclose (o := '\x7b') (c := '\x7d') rfl rfl level (by simp), htexts]
    rintro (_ | bound) rest hbound
    · simp at hbound
    · simp only [length_append, length_cons] at hbound
      rw [cons_append, cons_append, append_assoc, append_assoc, append_assoc, hs,
        cons_append, readValue?_brace, ← cons_append, ← hs, singleton_append,
        show ([] : List (Datum × Datum)) = Datum.named [] from rfl,
        readEntries?_intercalate (by simp) (fun d hd => (htextual d hd).exists_head _) h [] hkeys _ _ _ (by omega)]
      rfl

/-- **What is written of a value spells it.** -/
lemma Textual.spells (h : Textual d) (level : ℕ) : Spells (prettyAt level d).toList d := by
  induction h generalizing level with
  | text s => exact spells_quote s
  | list h ih => exact spells_list h fun d hd => ih d hd (level + 1)
  | object hkeys h ih => exact spells_object hkeys h fun e he => ih e he (level + 1)

/-- **Reading what was written** gives the value. -/
lemma read?_pretty (h : Textual d) : read? (pretty d) = some d := by
  obtain ⟨c, s, hs, hc⟩ := h.exists_head 0
  have hread := h.spells 0 (2 * (pretty d).toList.length + 2) [] (by rw [pretty]; omega)
  rw [append_nil] at hread
  have hskip : skipSpace (pretty d).toList = (prettyAt 0 d).toList := by
    rw [pretty, hs, skipSpace_cons (isSpace_of_opensValue hc)]
  simp only [read?, hskip, hread]
  rfl

end CodeAudit.Json
