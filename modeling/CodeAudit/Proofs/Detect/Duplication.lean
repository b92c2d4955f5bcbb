import CodeAudit.Proofs.Detect.Performance
import CodeAudit.Proofs.Detect.Renaming
import CodeAudit.Proofs.Number.Order

/-!
# Findings on duplicated functions

Every finding comes from the comparison of two functions, and is reported because its similarity reaches the threshold.
The other way round, two functions that have one fingerprint are reported, as are functions that were only renamed.

## Main definitions

* `Duplication.isShort`, `Duplication.printed` — the functions that are compared, with their rows of
  tokens.

## Main results

* `Duplication.mem_comparePairs` — a pair whose comparison gives a finding is reported.
* `Duplication.renamed_copies_reported` — renamed copies are always found.
-/

namespace CodeAudit.Fingerprint

variable {α : Type} [BEq α]

lemma shingles_int (xs : List α) (k : ℤ) :
    shingles xs (.int k) = .ok (if (xs.length : ℤ) < k then [] else rows xs k) := by
  by_cases hk : (xs.length : ℤ) < k
  · simp [shingles, Datum.ordered_int, Datum.Sign.holds, compare_lt_iff_lt.mpr hk, hk, bind, Except.bind, pure,
      Except.pure]
  · have hcompare : (compare (xs.length : ℤ) k == .lt) = false := by simpa [compare_lt_iff_lt] using hk
    simp [shingles, Datum.ordered_int, Datum.Sign.holds, hcompare, hk, Datum.toIndex, bind, Except.bind, pure,
      Except.pure]

lemma rows_eq_nil {xs : List α} {k : ℤ} (h : xs.length < k) : rows xs k = [] := by
  rw [rows, show ((xs.length : ℤ) - k + 1).toNat = 0 by omega]
  rfl

lemma rows_ne_nil {xs : List α} {k : ℤ} (h : k ≤ xs.length) : rows xs k ≠ [] := by
  obtain ⟨n, hn⟩ : ∃ n, ((xs.length : ℤ) - k + 1).toNat = n + 1 := ⟨((xs.length : ℤ) - k).toNat, by omega⟩
  rw [rows, hn, List.range_succ_eq_map, List.map_cons, List.eraseDups_cons]
  simp

variable [LawfulBEq α]

/-- A set has all of itself in common with itself. -/
lemma overlap_self (a : List α) : overlap a a = (a.length, a.length) := by
  have hall : a.filter a.contains = a := List.filter_eq_self.mpr fun x hx => List.contains_iff_mem.mpr hx
  simp [overlap, hall]

lemma jaccard_self {a : List α} (h : a ≠ []) : jaccard a a = 1 := by
  have hpos : 0 < a.length := List.length_pos_iff.mpr h
  simp only [jaccard, overlap_self]
  rw [if_neg hpos.ne', Number.ratio_self hpos]

end CodeAudit.Fingerprint

namespace CodeAudit.Duplication

open Datum Fingerprint Outcome List

open Performance (HasLines)

variable {s : Settings} {f : DuplicateFinding}

variable {a b : Printed} {found : List DuplicateFinding} {functions : List FunctionUnit} {maxLength maxFunctions : ℤ}

/-- **A comparison that reports something** has found two functions of one language and of different files that are near
enough, and tells where they are. -/
lemma eq_of_compare (h : compare s a b = .ok (some f)) :
    ∃ first second, reportedLines a.1 = .ok first ∧ reportedLines b.1 = .ok second ∧ a.1.lang = b.1.lang ∧
      a.1.path.toString ≠ b.1.path.toString ∧
      ordered .ge (.float (jaccard a.2 b.2)) s.threshold = .ok true ∧
      f = {
        id := a.1.id ++ "~" ++ b.1.id ++ "#dup"
        message := "Near-duplicate functions (Jaccard " ++ Number.fixed 2 (jaccard a.2 b.2) ++ ")"
        files := (a.1.path.toString, b.1.path.toString)
        lines := (first, second)
        similarity := jaccard a.2 b.2 } := by
  unfold compare at h
  split_ifs at h with hskip
  · cases Except.ok.inj h
  · obtain ⟨near, hnear, h⟩ := bind_eq_ok.mp h
    split_ifs at h with hfar
    · cases Except.ok.inj h
    · obtain ⟨first, hfirst, h⟩ := bind_eq_ok.mp h
      obtain ⟨second, hsecond, h⟩ := bind_eq_ok.mp h
      simp only [Bool.or_eq_true, decide_eq_true_eq, not_or, not_not, Bool.not_eq_true', beq_iff_eq] at hskip hfar
      obtain rfl : near = true := by simpa using hfar.1
      exact ⟨first, second, hfirst, hsecond, hskip.1, hfar.2, hnear, (Option.some.inj (Except.ok.inj h)).symm⟩

/-- **Every finding comes from a comparison** of a function with one behind it. -/
lemma exists_compare {printed : List Printed} (h : comparePairs s printed = .ok found)
    (hf : f ∈ found) : ∃ a b, [a, b].Sublist printed ∧ compare s a b = .ok (some f) := by
  induction printed generalizing found with
  | nil =>
    obtain rfl := Except.ok.inj h
    cases hf
  | cons a rest ih =>
    unfold comparePairs at h
    obtain ⟨late, -, h⟩ := bind_eq_ok.mp h
    -- what is found on the later functions alone
    have hlater : ∀ {others}, comparePairs s rest = .ok others → f ∈ others →
        ∃ a' b, [a', b].Sublist (a :: rest) ∧ compare s a' b = .ok (some f) := by
      intro others hothers hf
      obtain ⟨a', b, hab, hcompare⟩ := ih hothers hf
      exact ⟨a', b, hab.cons a, hcompare⟩
    split_ifs at h with hlate hempty
    · obtain rfl := Except.ok.inj h
      cases hf
    · obtain ⟨here, hhere, h⟩ := bind_eq_ok.mp h
      obtain ⟨others, hothers, h⟩ := bind_eq_ok.mp h
      obtain rfl := Except.ok.inj hhere
      obtain rfl := Except.ok.inj h
      exact hlater hothers hf
    · obtain ⟨here, hhere, h⟩ := bind_eq_ok.mp h
      obtain ⟨others, hothers, h⟩ := bind_eq_ok.mp h
      obtain rfl := Except.ok.inj h
      rcases mem_append.mp hf with hf | hf
      · obtain ⟨b, hb, hcompare⟩ := exists_of_mem_mapM hhere (by simpa using hf)
        exact ⟨a, b, (singleton_sublist.mpr hb).cons_cons a, hcompare⟩
      · exact hlater hothers hf

/-- The functions that are compared are some of the functions, in their order. -/
lemma sublist_of_admittedFrom {count : ℕ} {compared : List FunctionUnit}
    (h : admittedFrom s count functions = .ok compared) : compared.Sublist functions := by
  induction functions generalizing count compared with
  | nil =>
    obtain rfl := Except.ok.inj h
    exact Sublist.refl []
  | cons fn rest ih =>
    obtain ⟨fits, -, h⟩ := bind_eq_ok.mp h
    obtain ⟨full, -, h⟩ := bind_eq_ok.mp h
    obtain ⟨others, hrest, rfl⟩ : ∃ others, others.Sublist rest ∧
        (if fits then fn :: others else others) = compared := by
      cases full with
      | true => exact ⟨[], nil_sublist rest, Except.ok.inj h⟩
      | false =>
        obtain ⟨others, hothers, h⟩ := bind_eq_ok.mp h
        exact ⟨others, ih hothers, Except.ok.inj h⟩
    cases fits with
    | true => exact hrest.cons_cons fn
    | false => exact hrest.cons fn

/-- **Every finding is on two functions** of which the first comes before the second. -/
lemma exists_compared (h : detect s functions = .ok found) (hf : f ∈ found) :
    ∃ a b : Printed, [a.1, b.1].Sublist functions ∧ compare s a b = .ok (some f) := by
  obtain ⟨compared, hcompared, h⟩ := bind_eq_ok.mp h
  obtain ⟨printed, hprinted, h⟩ := bind_eq_ok.mp h
  obtain ⟨a, b, hab, hcompare⟩ := exists_compare h hf
  have hfunctions : printed.map Prod.fst = compared := by
    rw [map_eq_of_mapM (l := id) hprinted, map_id]
    intro fn _ p hp
    obtain ⟨rows, -, hp⟩ := bind_eq_ok.mp hp
    rw [← Except.ok.inj hp]
    rfl
  have hsublist := hab.map Prod.fst
  rw [hfunctions] at hsublist
  exact ⟨a, b, hsublist.trans (sublist_of_admittedFrom hcompared), hcompare⟩

/-- **The similarity of a finding is a number.** -/
lemma isNaN_similarity (h : detect s functions = .ok found) (hf : f ∈ found) : f.similarity.isNaN = false := by
  obtain ⟨a, b, -, hcompare⟩ := exists_compared h hf
  obtain ⟨-, -, -, -, -, -, hnear, rfl⟩ := eq_of_compare hcompare
  exact isNaN_eq_false_of_ordered hnear

/-! ## Pairs that must be reported -/

/-- The text of a function is not too long. -/
def isShort (maxLength : ℤ) (fn : FunctionUnit) : Bool :=
  fn.source.length ≤ maxLength

lemma admittedFrom_eq (hlength : s.maxLength = .int maxLength)
    (hfunctions : s.maxFunctions = .int maxFunctions) (functions : List FunctionUnit) (count : ℕ)
    (hcount : (count : ℤ) < maxFunctions) :
    admittedFrom s count functions = .ok ((functions.filter (isShort maxLength)).take (maxFunctions - count).toNat) := by
  induction functions generalizing count with
  | nil => simp [admittedFrom]
  | cons fn rest ih =>
    have hfits : Datum.ordered .le (.int fn.source.length) s.maxLength = .ok (isShort maxLength fn) := by
      rw [hlength, Performance.ordered_le_int, isShort]
    rw [admittedFrom, hfits, hfunctions]
    cases hshort : isShort maxLength fn with
    | true =>
      obtain ⟨n, hn⟩ : ∃ n, (maxFunctions - count).toNat = n + 1 := ⟨(maxFunctions - count - 1).toNat, by omega⟩
      rw [List.filter_cons_of_pos hshort, hn, List.take_succ_cons]
      simp only [bind, Except.bind, if_true, Datum.ordered_ge_int]
      by_cases hfull : maxFunctions ≤ ((count + 1 : ℕ) : ℤ)
      · obtain rfl : n = 0 := by omega
        simp only [decide_eq_true hfull, if_true, List.take_zero, pure, Except.pure]
      · have ih := ih (count + 1) (by omega)
        rw [show (maxFunctions - (count + 1 : ℕ)).toNat = n by omega] at ih
        simp only [decide_eq_false hfull, Bool.false_eq_true, if_false, ih, pure, Except.pure]
    | false =>
      rw [List.filter_cons_of_neg (by simp [hshort]), ← ih count hcount]
      simp [Datum.ordered_ge_int, not_le.mpr hcount, ih count hcount, bind, Except.bind, pure, Except.pure]

/-- A function with its rows of `k` tokens. -/
def printed (k : ℤ) (fn : FunctionUnit) : Printed :=
  let tokens := Fingerprint.normalize fn.source
  (fn, if tokens.length < k then [] else Fingerprint.rows tokens k)

/-- With whole numbers for settings, the functions that are compared are the first ones that are short enough. -/
lemma detect_eq {k : ℤ} (hrow : s.rowLength = .int k) (hlength : s.maxLength = .int maxLength)
    (hfunctions : s.maxFunctions = .int maxFunctions) (hpos : 0 < maxFunctions) (functions : List FunctionUnit) :
    detect s functions =
      comparePairs s (((functions.filter (isShort maxLength)).take maxFunctions.toNat).map (printed k)) := by
  have hadmitted := admittedFrom_eq hlength hfunctions functions 0 hpos
  rw [Nat.cast_zero, sub_zero] at hadmitted
  have hprinted (compared : List FunctionUnit) : compared.mapM (fun fn => do
      return (fn, ← shingles (Fingerprint.normalize fn.source) s.rowLength)) =
        (.ok (compared.map (printed k)) : Except Fault (List Printed)) := by
    refine mapM_eq_ok fun fn _ => ?_
    rw [hrow, shingles_int]
    rfl
  rw [detect, admitted, hadmitted]
  exact congrArg (· >>= comparePairs s) (hprinted _)

lemma exists_reportedLines {fn : FunctionUnit} (h : HasLines fn) : ∃ lines, reportedLines fn = .ok lines := by
  obtain ⟨first, last, hfirst, hlast⟩ := h
  refine ⟨(if first > 0 then first else 1, if last ≥ first then last else first), ?_⟩
  rw [reportedLines, hfirst, hlast]
  rfl

/-- Functions whose lines are known can be compared if the threshold is a number. -/
lemma exists_compare_eq {x : Float} {r : Bool} {sign : Datum.Sign}
    (h : ordered sign s.threshold (.float x) = .ok r) (ha : HasLines a.1) (hb : HasLines b.1) :
    ∃ found, compare s a b = .ok found := by
  obtain ⟨near, hnear⟩ := exists_ordered_float h .ge (jaccard a.2 b.2)
  obtain ⟨first, hfirst⟩ := exists_reportedLines ha
  obtain ⟨second, hsecond⟩ := exists_reportedLines hb
  unfold compare
  split_ifs with hskip
  · exact ⟨none, rfl⟩
  · simp only [hnear, hfirst, hsecond, bind, Except.bind]
    split_ifs with hfar
    · exact ⟨none, rfl⟩
    · exact ⟨_, rfl⟩

/-- Two functions of different files with one fingerprint are reported as equal. -/
lemma compare_of_eq (h : ordered .le s.threshold (.float 1) = .ok true) (ha : HasLines a.1)
    (hb : HasLines b.1) (hlang : a.1.lang = b.1.lang) (hpath : a.1.path.toString ≠ b.1.path.toString) (heq : a.2 = b.2)
    (hne : b.2 ≠ []) :
    ∃ f, compare s a b = .ok (some f) ∧ f.id = a.1.id ++ "~" ++ b.1.id ++ "#dup" ∧
      f.files = (a.1.path.toString, b.1.path.toString) ∧ f.similarity = 1 := by
  have hsimilarity : jaccard a.2 b.2 = 1 := by rw [heq, jaccard_self hne]
  have hnear := ordered_ge_of_le h
  obtain ⟨first, hfirst⟩ := exists_reportedLines ha
  obtain ⟨second, hsecond⟩ := exists_reportedLines hb
  unfold compare
  rw [if_neg (by simp [hlang, hne])]
  simp only [hsimilarity, hnear, hfirst, hsecond, bind, Except.bind, Bool.not_true, Bool.false_or, beq_iff_eq,
    if_neg hpath]
  exact ⟨_, rfl, rfl, rfl, rfl⟩

/-- The findings on the pairs whose first member is given. -/
def comparisons (s : Settings) (a : Printed) (rest : List Printed) : Except Fault (List (Option DuplicateFinding)) :=
  if a.2.isEmpty then .ok [] else rest.mapM (compare s a)

section

variable (hbudget : ordered .gt (.float 0) s.timeBudget = .ok false)

variable {found : List DuplicateFinding} {printed : List Printed}
include hbudget

/-- As long as time is left, the findings on a list are those on its first function, and those on the others. -/
lemma comparePairs_cons_eq_ok {rest : List Printed} : comparePairs s (a :: rest) = .ok found ↔
      ∃ here others, comparisons s a rest = .ok here ∧ comparePairs s rest = .ok others ∧
        here.filterMap id ++ others = found := by
  have hbind : comparePairs s (a :: rest) =
      comparisons s a rest >>= fun here => comparePairs s rest >>= fun others => .ok (here.filterMap id ++ others) := by
    rw [comparePairs, hbudget, comparisons]
    cases a.2.isEmpty <;> rfl
  rw [hbind]
  simp only [bind_eq_ok, Except.ok.injEq, exists_and_left]

lemma exists_comparePairs (h : ∀ a ∈ printed, ∀ b ∈ printed, ∃ found, compare s a b = .ok found) :
    ∃ found, comparePairs s printed = .ok found := by
  induction printed with
  | nil => exact ⟨[], rfl⟩
  | cons a rest ih =>
    obtain ⟨others, hothers⟩ :=
      ih fun a' ha' b hb => h a' (mem_cons_of_mem _ ha') b (mem_cons_of_mem _ hb)
    obtain ⟨here, hhere⟩ : ∃ here, comparisons s a rest = .ok here := by
      unfold comparisons
      split_ifs with hempty
      · exact ⟨[], rfl⟩
      · exact exists_mapM fun b hb => h a mem_cons_self b (mem_cons_of_mem _ hb)
    exact ⟨_, (comparePairs_cons_eq_ok hbudget).mpr ⟨here, others, hhere, hothers, rfl⟩⟩

/-- **A pair whose comparison gives a finding is reported.** -/
lemma mem_comparePairs
    (h : comparePairs s printed = .ok found) (hab : [a, b].Sublist printed) (hne : a.2 ≠ [])
    (hcompare : compare s a b = .ok (some f)) : f ∈ found := by
  induction printed generalizing found with
  | nil => cases hab
  | cons c rest ih =>
    obtain ⟨here, others, hhere, hothers, rfl⟩ := (comparePairs_cons_eq_ok hbudget).mp h
    cases hab with
    | cons _ hab => exact mem_append_right _ (ih hothers hab)
    | cons_cons _ hb =>
      rw [comparisons, if_neg (by simpa using hne)] at hhere
      have hmem := mem_of_mapM hhere (singleton_sublist.mp hb) hcompare
      exact mem_append_left _ (mem_filterMap.mpr ⟨some f, hmem, rfl⟩)

end

/-- **Renamed copies are always found.** Two functions of one language and of different files, whose texts differ only in
the spelling of names, numbers and blanks, are reported as equal if they have a row of tokens, are among the functions that
are compared, and are given time. -/
theorem renamed_copies_reported {k maxLength maxFunctions : ℤ} {functions : List FunctionUnit} {a b : FunctionUnit}
    (hrow : s.rowLength = .int k) (hlength : s.maxLength = .int maxLength)
    (hfunctions : s.maxFunctions = .int maxFunctions) (hthreshold : Datum.ordered .le s.threshold (.float 1) = .ok true)
    (hbudget : Datum.ordered .gt (.float 0) s.timeBudget = .ok false) (hlines : ∀ fn ∈ functions, HasLines fn)
    (hab : [a, b].Sublist ((functions.filter (isShort maxLength)).take maxFunctions.toNat)) (hlang : a.lang = b.lang)
    (hpath : a.path.toString ≠ b.path.toString) (ha : Fingerprint.IsAscii a.source.toList)
    (hb : Fingerprint.IsAscii b.source.toList)
    (hrenames : Fingerprint.Renames a.source b.source ∨ Fingerprint.Renames b.source a.source)
    (hk : k ≤ (Fingerprint.normalize a.source).length) :
    ∃ found, detect s functions = .ok found ∧
      ∃ f ∈ found, f.id = a.id ++ "~" ++ b.id ++ "#dup" ∧ f.files = (a.path.toString, b.path.toString) ∧
        f.similarity = 1 ∧ ∃ n > 0, Fingerprint.overlap (printed k a).2 (printed k b).2 = (n, n) := by
  have htokens : Fingerprint.tokens b.source = Fingerprint.tokens a.source :=
    hrenames.elim (Fingerprint.tokens_of_renames ha hb) fun h => (Fingerprint.tokens_of_renames hb ha h).symm
  have hnormal : Fingerprint.normalize b.source = Fingerprint.normalize a.source := by
    rw [Fingerprint.normalize, Fingerprint.normalize, htokens]
  have heq : (printed k a).2 = (printed k b).2 := by rw [printed, printed, hnormal]
  have hne : (printed k a).2 ≠ [] := by
    rw [printed, if_neg (not_lt.mpr hk)]
    exact Fingerprint.rows_ne_nil hk
  -- whatever is compared is one of the functions
  have hcompared : ∀ p ∈ ((functions.filter (isShort maxLength)).take maxFunctions.toNat).map (printed k),
      HasLines p.1 := by
    intro p hp
    obtain ⟨fn, hfn, rfl⟩ := List.mem_map.mp hp
    exact hlines fn (List.mem_of_mem_filter (List.mem_of_mem_take hfn))
  have hsublist := hab.map (printed k)
  have hpos : 0 < maxFunctions := by
    by_contra hle
    rw [Int.toNat_of_nonpos (not_lt.mp hle)] at hab
    cases hab
  obtain ⟨found, hfound⟩ := exists_comparePairs hbudget fun p hp q hq =>
    exists_compare_eq hthreshold (hcompared p hp) (hcompared q hq)
  obtain ⟨f, hf, hid, hfiles, hsimilarity⟩ := compare_of_eq hthreshold
    (hcompared (printed k a) (hsublist.subset List.mem_cons_self))
    (hcompared (printed k b) (hsublist.subset (by simp))) hlang hpath heq (heq ▸ hne)
  refine ⟨found, (detect_eq hrow hlength hfunctions hpos functions).trans hfound, f,
    mem_comparePairs hbudget hfound hsublist hne hf, hid, hfiles, hsimilarity,
    (printed k a).2.length, List.length_pos_iff.mpr hne, ?_⟩
  rw [← heq, Fingerprint.overlap_self]

/-- A function of one line. -/
def oneLiner (path text : String) : FunctionUnit :=
  { id := path ++ ":f", name := "f", lang := .python, path := .ofString path, firstLine := .int 1, lastLine := .int 1,
    doc := none, text := some text, metrics := [] }

/-- A sum in which all names and numbers and some blanks are replaced is found. -/
theorem renamed_copies_reported_sum :
    let a := oneLiner "a.py" "x = a1 + b*(c - 10);"
    let b := oneLiner "b.py" "total  =\n sum + delta*(rest - 7);"
    Fingerprint.Renames a.source b.source ∧ ∃ found, detect {} [a, b] = .ok found ∧
      ∃ f ∈ found, f.id = "a.py:f" ++ "~" ++ "b.py:f" ++ "#dup" ∧ f.files = ("a.py", "b.py") ∧ f.similarity = 1 ∧
        ∃ n > 0, Fingerprint.overlap (printed 7 a).2 (printed 7 b).2 = (n, n) := by
  intro a b
  have hlines : ∀ fn ∈ [a, b], HasLines fn := by
    intro fn hfn
    rcases List.mem_pair.mp hfn with rfl | rfl <;> exact ⟨1, 1, rfl, rfl⟩
  have hrenames : Fingerprint.Renames a.source b.source := by
    refine ⟨Fingerprint.partsOf b.source.toList, ?_, (Fingerprint.spelled_partsOf _).symm⟩
    cbv
  have hadmitted : [a, b].Sublist (([a, b].filter (isShort 2000)).take (400 : ℤ).toNat) := by
    have hshort : [a, b].filter (isShort 2000) = [a, b] := List.filter_eq_self.mpr (by decide +kernel)
    rw [hshort]
    exact List.Sublist.refl [a, b]
  have hascii : [a, b].all (fun fn => fn.source.toList.all fun c => decide (c.toNat < 128)) = true := by cbv
  simp only [List.all_eq_true, decide_eq_true_eq] at hascii
  have htokens : (7 : ℤ) ≤ (Fingerprint.normalize a.source).length := by decide +kernel
  have hpath : a.path.toString = "a.py" ∧ b.path.toString = "b.py" := by constructor <;> cbv
  refine ⟨hrenames, ?_⟩
  have h := renamed_copies_reported (s := {}) rfl rfl rfl rfl rfl hlines hadmitted rfl (by rw [hpath.1, hpath.2]; decide)
    (hascii a List.mem_cons_self) (hascii b (by simp)) (.inl hrenames) htokens
  rwa [hpath.1, hpath.2] at h

end CodeAudit.Duplication
