import Mathlib
import CodeAudit.Index.Collection

/-!
# Documents under running numbers

A shelf names the documents that it is given `doc_0`, `doc_1`, … and starts anew with every call. This module
says what a collection looks like whose names are such a row, and what becomes of it when another row is put
into it: the new documents lie on top of the old ones, and only old documents behind the last new one are left.

## Main definitions

* `Shelf.overlay` — a row of documents on top of another.

## Main results

* `Shelf.flatten_batches` — batches of any size make up one row of running numbers.
* `Collection.putAll_numbered` — what is left when one row of running numbers is put into another.
-/

namespace CodeAudit

open List

/-! ## Names -/

/-- The decimal digits of a number determine it. -/
lemma Number.decimal_injective : Function.Injective Number.decimal := by
  intro m n h
  have h' := congrArg (Nat.ofDigitChars 10 · 0) h
  simpa only [Number.decimal, Nat.ofDigitChars_ten_toDigits] using h'

/-- The decimal text of a natural number has no sign. -/
lemma Number.decimalInt_natCast (n : ℕ) : Number.decimalInt n = String.ofList (Number.decimal n) := by
  have h : ¬ (n : ℤ) < 0 := by omega
  simp [Number.decimalInt, h]

namespace Shelf

/-- **Different numbers are different names.** -/
theorem idOf_injective : Function.Injective idOf := by
  intro m n h
  simp only [idOf, Number.decimalInt_natCast] at h
  apply Number.decimal_injective
  have h' := congrArg String.toList h
  simpa using h'

@[simp] lemma idOf_inj {m n : ℕ} : idOf m = idOf n ↔ m = n := idOf_injective.eq_iff

/-! ## Rows of running numbers -/

@[simp] lemma numbered_nil (start : ℕ) : numbered start [] = [] := rfl

/-- The entry of a row at a position. -/
lemma getElem?_numbered (start : ℕ) (docs : List Document) (i : ℕ) :
    (numbered start docs)[i]? = docs[i]?.map (fun d => (idOf (start + i), d)) := by
  simp only [numbered, getElem?_map, getElem?_zipIdx, Option.map_map]
  cases docs[i]? <;> simp

@[simp] lemma numbered_cons (start : ℕ) (d : Document) (docs : List Document) :
    numbered start (d :: docs) = (idOf start, d) :: numbered (start + 1) docs := by
  apply ext_getElem?
  rintro (_ | i)
  · simp [getElem?_numbered]
  · simp only [getElem?_numbered, getElem?_cons_succ]
    rw [show start + (i + 1) = start + 1 + i by omega]

/-- A row behind another goes on with its numbers. -/
lemma numbered_append (start : ℕ) (front back : List Document) :
    numbered start (front ++ back) = numbered start front ++ numbered (start + front.length) back := by
  induction front generalizing start with
  | nil => simp
  | cons d front ih =>
    simp only [cons_append, numbered_cons, ih, length_cons]
    rw [show start + 1 + front.length = start + (front.length + 1) by omega]

@[simp] lemma map_snd_numbered (start : ℕ) (docs : List Document) :
    (numbered start docs).map (·.2) = docs := by
  induction docs generalizing start with
  | nil => rfl
  | cons d docs ih => simp [ih]

@[simp] lemma length_numbered (start : ℕ) (docs : List Document) :
    (numbered start docs).length = docs.length := by
  simp [numbered]

/-! ## Batches -/

/-- The first batches make up the first documents. -/
private lemma flatten_first_batches (size : ℕ) (docs : List Document) (count : ℕ) :
    ((List.range count).map fun b => numbered (b * size) ((docs.drop (b * size)).take size)).flatten =
      numbered 0 (docs.take (count * size)) := by
  induction count with
  | zero => simp
  | succ count ih =>
    rw [range_succ, map_append, flatten_append, ih, Nat.succ_mul, take_add,
      numbered_append]
    rcases Nat.le_total (count * size) docs.length with h | h
    · simp [h]
    · -- the documents are used up, so the next batch is empty
      simp [drop_eq_nil_of_le h]

/-- **Batches make up one row**: whatever their size, the documents of all batches are numbered one after
the other. -/
theorem flatten_batches {size : ℕ} (hsize : 0 < size) (docs : List Document) :
    (batches size docs).flatten = numbered 0 docs := by
  have hcount : docs.length ≤ (docs.length + size - 1) / size * size := by
    have h := Nat.lt_div_mul_add hsize (a := docs.length + size - 1)
    omega
  rw [batches, flatten_first_batches, take_of_length_le hcount]

/-! ## One row on top of another -/

/-- **One row of documents on top of another**: of the one below, what lies behind the end of the one above
can be seen. -/
def overlay (above below : List Document) : List Document :=
  above ++ below.drop above.length

@[simp] lemma overlay_nil_left (below : List Document) : overlay [] below = below := rfl

@[simp] lemma overlay_nil_right (above : List Document) : overlay above [] = above := by
  simp [overlay]

@[simp] lemma length_overlay (above below : List Document) :
    (overlay above below).length = max above.length below.length := by
  simp only [overlay, length_append, length_drop]
  omega

/-- Rows can be laid on each other in either order of the two steps. -/
lemma overlay_assoc (top middle bottom : List Document) :
    overlay top (overlay middle bottom) = overlay (overlay top middle) bottom := by
  simp only [overlay, append_assoc, drop_append, drop_drop, length_append,
    length_drop]
  rw [show middle.length + (top.length - middle.length) = top.length + (middle.length - top.length) by
    omega]

/-- What can be seen comes from one of the two rows. -/
lemma mem_of_mem_overlay {d : Document} {above below : List Document} (h : d ∈ overlay above below) :
    d ∈ above ∨ d ∈ below := by
  rcases mem_append.mp h with h | h
  · exact .inl h
  · exact .inr (mem_of_mem_drop h)

end Shelf

namespace Collection

open CodeAudit.Shelf

@[simp] lemma putAll_nil (c : Collection) : c.putAll [] = c := rfl

lemma putAll_cons (c : Collection) (id : String) (d : Document) (rest : List (String × Document)) :
    c.putAll ((id, d) :: rest) = (c.put id d).putAll rest := rfl

/-- Puts one document under the number `start + i` into a row that starts at `start` and has at least `i`
documents.

**Proof sketch.** Induction on the row. The first name is the one that is looked for exactly if `i = 0`;
otherwise the rest of the row starts one number later and is one document shorter. -/
lemma putIn_numbered (d : Document) (row : List Document) (start i : ℕ) (h : i ≤ row.length) :
    putIn (idOf (start + i)) d (numbered start row) =
      numbered start (row.take i ++ d :: row.drop (i + 1)) := by
  induction row generalizing start i with
  | nil =>
    obtain rfl : i = 0 := by simpa using h
    rfl
  | cons e row ih =>
    rw [numbered_cons]
    cases i with
    | zero => simp [putIn]
    | succ i =>
      have hne : (idOf start == idOf (start + (i + 1))) = false := by simp
      have hi : i ≤ row.length := by simpa using h
      rw [putIn, hne, show start + (i + 1) = start + 1 + i by omega, ih (start + 1) i hi]
      simp

/-- Puts documents into a row from a position inside it on. -/
private lemma putAll_numbered_from (docs front back : List Document) :
    putAll ⟨numbered 0 (front ++ back)⟩ (numbered front.length docs) =
      ⟨numbered 0 (front ++ overlay docs back)⟩ := by
  induction docs generalizing front back with
  | nil => rfl
  | cons d docs ih =>
    -- one document is put, and belongs to the front from then on
    have hput := putIn_numbered d (front ++ back) 0 front.length (by simp)
    rw [Nat.zero_add, take_left, drop_length_add_append] at hput
    have hfront := ih (front ++ [d]) (back.drop 1)
    simp only [length_append, length_singleton, append_assoc, singleton_append]
      at hfront
    rw [numbered_cons, putAll_cons, put, hput, hfront, overlay, overlay, drop_drop,
      length_cons, cons_append, Nat.add_comm 1]

/-- **A row of running numbers put into another** lies on top of it. -/
theorem putAll_numbered (docs row : List Document) :
    putAll ⟨numbered 0 row⟩ (numbered 0 docs) = ⟨numbered 0 (overlay docs row)⟩ :=
  putAll_numbered_from docs [] row

end Collection

end CodeAudit
