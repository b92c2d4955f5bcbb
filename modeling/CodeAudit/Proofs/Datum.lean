import Mathlib
import CodeAudit.Datum.Arithmetic

/-!
# Entries by name

Entries of dictionaries are found by comparing keys as values. For keys that are texts this is equality.

## Main results

* `Datum.lookup_insertAll_named` — looking up a name after several values were put under names.
* `Datum.insert_named` — a value that is put under a new name comes last.
-/

namespace CodeAudit.Datum

variable {d : Datum} {key : String} {entries : List (String × Datum)}

/-- Only a text equals a text. -/
lemma equals_text_iff {s : String} : equals d (.text s) = true ↔ d = .text s := by
  cases d <;> simp [equals, numeric?]

/-- Texts are compared by their code points. -/
lemma less_text (s t : String) : less (.text s) (.text t) = .ok (decide (s < t)) := by
  simp only [less, ordered, Sign.holds, compareText]
  by_cases hlt : s < t
  · simp [hlt]
  · by_cases hgt : t < s <;> simp [hlt, hgt]

@[simp] lemma text_beq_text (s t : String) : (text s == text t) = (s == t) := by
  change equals (text s) (text t) = _
  rw [equals]

/-- **Looking up a name after a value was put under a name.** -/
lemma lookup_insert_text (name key : String) (value : Datum) (entries : List (Datum × Datum)) :
    lookup (.text name) (insert (.text key) value entries) =
      if name = key then some value else lookup (.text name) entries := by
  have hhere : ∀ rest, lookup (.text name) ((.text key, value) :: rest) =
      if name = key then some value else lookup (.text name) rest := by
    intro rest
    by_cases hname : name = key
    · simp [lookup, equals_text_iff, hname]
    · simp [lookup, equals_text_iff, hname, Ne.symm hname]
  induction entries with
  | nil => exact hhere []
  | cons entry entries ih =>
    obtain ⟨k, v⟩ := entry
    by_cases hkey : k = .text key
    · rw [insert, if_pos (by rwa [equals_text_iff]), hkey, hhere, lookup]
      by_cases hname : name = key
      · rw [if_pos hname, if_pos hname]
      · rw [if_neg hname, if_neg hname, if_neg (by simp [equals_text_iff, Ne.symm hname])]
    · rw [insert, if_neg (by rwa [equals_text_iff]), lookup, lookup, ih]
      by_cases hname : k = .text name
      · have hne : name ≠ key := fun heq => hkey (heq ▸ hname)
        simp [equals_text_iff, hname, hne]
      · simp [equals_text_iff, hname]

@[simp] lemma orElse_dict_nil (entries : List (Datum × Datum)) : (dict entries).orElse (dict []) = dict entries := by
  cases entries <;> rfl

@[simp] lemma orElse_list_nil (items : List Datum) : (list items).orElse (list []) = list items := by
  cases items <;> rfl

/-- Only a list can have a list behind it. -/
lemma of_add_list {sum : Datum} {items : List Datum} (h : d.add (list items) = .ok sum) :
    ∃ front, d = list front ∧ sum = list (front ++ items) := by
  cases d with
  | list front => exact ⟨front, rfl, (Except.ok.inj h).symm⟩
  | _ => cases h

/-- A value that is asked for by key is that of the entry, or the default if there is none. -/
lemma of_ask {default value : Datum} (h : d.ask key default = .ok value) : value = (d.entry? key).getD default := by
  cases d with
  | dict entries => exact (Except.ok.inj h).symm
  | _ => cases h

/-- The value under a name is that of the first entry with the name. -/
lemma entry?_object (entries : List (String × Datum)) (name : String) :
    entry? (object entries) name = (entries.find? (·.1 == name)).map (·.2) := by
  change lookup (.text name) (entries.map fun e => (.text e.1, e.2)) = _
  induction entries with
  | nil => rfl
  | cons e entries ih =>
    rw [List.map_cons, lookup, ih, List.find?_cons]
    by_cases hname : e.1 = name
    · simp [equals_text_iff, hname]
    · have hbeq : (e.1 == name) = false := by simpa using hname
      simp [equals_text_iff, hname, hbeq]

lemma ask_object (entries : List (String × Datum)) (name : String) (default : Datum) :
    (object entries).ask name default = .ok (((entries.find? (·.1 == name)).map (·.2)).getD default) := by
  rw [← entry?_object]
  rfl

@[simp] lemma toFloat_float (x : Float) : (float x).toFloat = .ok x := rfl

/-- Entries under texts. -/
def named (entries : List (String × Datum)) : List (Datum × Datum) :=
  entries.map fun (k, v) => (.text k, v)

/-- **Looking up a name after several values were put under names**: the last value that was put under the name
counts. -/
lemma lookup_insertAll_named (name : String) (update : List (String × Datum)) (entries : List (Datum × Datum)) :
    lookup (.text name) (insertAll (named update) entries) =
      (update.reverse.lookup name).or (lookup (.text name) entries) := by
  induction update generalizing entries with
  | nil => rfl
  | cons e update ih =>
    have hlast : List.lookup name [e] = if name = e.1 then some e.2 else none := by
      obtain ⟨key, value⟩ := e
      by_cases hname : name = key
      · simp [List.lookup, hname]
      · simp [List.lookup, hname, beq_eq_false_iff_ne.mpr hname]
    change lookup _ (insertAll (named update) (insert (.text e.1) e.2 entries)) = _
    rw [ih, lookup_insert_text, List.reverse_cons, List.lookup_append, Option.or_assoc, hlast]
    split_ifs <;> rfl

/-- **A value that is put under a new name comes last.** -/
lemma insert_named (h : key ∉ entries.map (·.1)) (value : Datum) :
    insert (.text key) value (named entries) = named (entries ++ [(key, value)]) := by
  induction entries with
  | nil => rfl
  | cons e entries ih =>
    rw [List.map_cons, List.mem_cons, not_or] at h
    have hne : equals (.text e.1) (.text key) = false := by
      simpa [← Bool.not_eq_true, equals_text_iff] using Ne.symm h.1
    change insert _ _ ((.text e.1, e.2) :: named entries) = (.text e.1, e.2) :: named (entries ++ [(key, value)])
    rw [insert, hne, if_neg (by simp), ih h.2]

/-- As many items as are asked for, or all. -/
lemma firstOf_eq_take {α : Type} (xs : List α) (n : ℕ) : firstOf xs (.int n) = .ok (xs.take n) := by
  change Except.ok (Sequence.slice xs 0 n) = _
  have hn : ¬ (n : ℤ) < 0 := by omega
  simp [Sequence.slice, Sequence.offset, hn]

end CodeAudit.Datum
