import CodeAudit.Proofs.Detect.Duplication
import CodeAudit.Proofs.Detect.Windows
import CodeAudit.Proofs.Sequence.Pairs

/-!
# Pairs of duplicated functions

Two functions are alike if they have one language, are of different files, and have rows of tokens whose similarity
reaches the threshold. The findings tell exactly the pairs of alike functions, in the order of their positions. Whether
two functions are alike does not depend on which of them comes first, so another order of the functions gives the same
pairs.

## Main definitions

* `Duplication.Alike` — two functions that are to be reported.
* `Duplication.Reports` — findings that tell the alike ones among some functions.

## Main results

* `Duplication.exists_comparePairs_reports` — there is a finding for each pair of alike functions.
* `Duplication.detect_reports_alike_pairs` — the findings are exactly the pairs of alike functions.
-/

namespace CodeAudit.Duplication

open Fingerprint List Sequence

open Performance (HasLines)

/-- The rows of `k` tokens of a function. -/
def tokenRows (k : ℕ) (fn : FunctionUnit) : Finset (List String) :=
  windows k (Fingerprint.normalize fn.source)

/-- Two functions that are to be reported. -/
@[mk_iff]
structure Alike (k : ℕ) (threshold : Datum) (a b : FunctionUnit) : Prop where
  lang : a.lang = b.lang
  path : a.path.toString ≠ b.path.toString
  left : (tokenRows k a).Nonempty
  right : (tokenRows k b).Nonempty
  near : Datum.ordered .ge (.float (similarity (tokenRows k a) (tokenRows k b))) threshold = .ok true

instance (k : ℕ) (threshold : Datum) : DecidableRel (Alike k threshold) :=
  fun a b => decidable_of_iff' _ (alike_iff k threshold a b)

/-- What a finding tells of two functions. -/
structure IsReport (k : ℕ) (a b : FunctionUnit) (f : DuplicateFinding) : Prop where
  id : f.id = a.id ++ "~" ++ b.id ++ "#dup"
  message : f.message = "Near-duplicate functions (Jaccard " ++ Number.fixed 2 f.similarity ++ ")"
  files : f.files = (a.path.toString, b.path.toString)
  lines : reportedLines a = .ok f.lines.1 ∧ reportedLines b = .ok f.lines.2
  similarity : f.similarity = similarity (tokenRows k a) (tokenRows k b)

variable {s : Settings} {k : ℕ} {threshold : Datum} {a b : FunctionUnit}

lemma Alike.symm (h : Alike k threshold a b) : Alike k threshold b a where
  lang := h.lang.symm
  path := h.path.symm
  left := h.right
  right := h.left
  near := similarity_comm (tokenRows k a) (tokenRows k b) ▸ h.near

lemma not_alike_self (a : FunctionUnit) : ¬ Alike k threshold a a :=
  fun h => h.path rfl

/-! ## Comparing two functions -/

lemma printed_snd (k : ℕ) (fn : FunctionUnit) :
    (printed k fn).2 = Fingerprint.rows (Fingerprint.normalize fn.source) k := by
  simp only [printed]
  split_ifs with hlt
  · exact (rows_eq_nil hlt).symm
  · rfl

lemma toFinset_printed (k : ℕ) (fn : FunctionUnit) : (printed k fn).2.toFinset = tokenRows k fn := by
  rw [printed_snd, toFinset_rows, tokenRows]

lemma nonempty_tokenRows_iff {fn : FunctionUnit} : (tokenRows k fn).Nonempty ↔ (printed k fn).2 ≠ [] := by
  rw [← toFinset_printed, toFinset_nonempty_iff]

lemma jaccard_printed (h : (tokenRows k a).Nonempty) :
    jaccard (printed k a).2 (printed k b).2 = similarity (tokenRows k a) (tokenRows k b) := by
  have hnodup (fn : FunctionUnit) : (printed k fn).2.Nodup := by
    rw [printed_snd]
    exact nodup_rows _ _
  rw [jaccard_eq (hnodup a) (hnodup b) (nonempty_tokenRows_iff.mp h), toFinset_printed, toFinset_printed]

/-- Alike functions are reported. -/
lemma compare_of_alike (h : Alike k s.threshold a b) (ha : HasLines a) (hb : HasLines b) :
    ∃ f, compare s (printed k a) (printed k b) = .ok (some f) ∧ IsReport k a b f := by
  obtain ⟨first, hfirst⟩ := exists_reportedLines ha
  obtain ⟨second, hsecond⟩ := exists_reportedLines hb
  have hright := nonempty_tokenRows_iff.mp h.right
  have hnear := jaccard_printed (b := b) h.left ▸ h.near
  have hlang : (printed k a).1.lang = (printed k b).1.lang := h.lang
  have hpath : (printed k a).1.path.toString ≠ (printed k b).1.path.toString := h.path
  unfold compare
  rw [if_neg (by simp [hlang, hright])]
  simp only [hnear, bind, Except.bind, Bool.not_true, Bool.false_or, beq_iff_eq, if_neg hpath]
  change ∃ f, Except.bind (reportedLines a) _ = _ ∧ _
  rw [hfirst]
  change ∃ f, Except.bind (reportedLines b) _ = _ ∧ _
  rw [hsecond]
  exact ⟨_, rfl, ⟨rfl, rfl, rfl, ⟨hfirst, hsecond⟩, jaccard_printed h.left⟩⟩

/-- Functions that are not alike are not reported. -/
lemma compare_of_not_alike (hthreshold : s.threshold.numeric?.isSome = true) (h : ¬ Alike k s.threshold a b)
    (ha : (tokenRows k a).Nonempty) : compare s (printed k a) (printed k b) = .ok none := by
  obtain ⟨near, hnear⟩ := Datum.exists_ordered_of_isSome hthreshold .ge
    (similarity (tokenRows k a) (tokenRows k b))
  unfold compare
  split_ifs with hskip
  · rfl
  · simp only [Bool.or_eq_true, decide_eq_true_eq, not_or, not_not, List.isEmpty_iff] at hskip
    simp only [jaccard_printed ha, hnear, bind, Except.bind]
    -- what is left of being alike is the similarity and the files
    split_ifs with hfar
    · rfl
    · simp only [Bool.or_eq_true, not_or, Bool.not_eq_true', beq_iff_eq, Bool.not_eq_false] at hfar
      obtain rfl : near = true := hfar.1
      exact absurd ⟨hskip.1, hfar.2, ha, nonempty_tokenRows_iff.mpr hskip.2, hnear⟩ h

/-! ## Comparing all functions -/

section

variable (hthreshold : s.threshold.numeric?.isSome = true)
include hthreshold

/-- The comparisons of a function with those behind it report the alike ones among them. -/
lemma exists_comparisons_reports (ha : HasLines a) {rest : List FunctionUnit} (hrest : ∀ b ∈ rest, HasLines b) :
    ∃ here, comparisons s (printed k a) (rest.map (printed k)) = .ok here ∧
      Forall₂ (IsReport k a) (rest.filter fun b => Alike k s.threshold a b) (here.filterMap id) := by
  by_cases hrows : (tokenRows k a).Nonempty
  · rw [comparisons, if_neg (by simpa using nonempty_tokenRows_iff.mp hrows)]
    induction rest with
    | nil => exact ⟨[], rfl, .nil⟩
    | cons b rest ih =>
      obtain ⟨here, hhere, hreports⟩ := ih fun c hc => hrest c (mem_cons_of_mem _ hc)
      by_cases halike : Alike k s.threshold a b
      · obtain ⟨f, hf, hreport⟩ := compare_of_alike halike ha (hrest b mem_cons_self)
        refine ⟨some f :: here, ?_, ?_⟩
        · rw [map_cons, mapM_cons, hf, hhere]
          rfl
        · rw [filter_cons_of_pos (by simpa using halike)]
          exact .cons hreport hreports
      · refine ⟨none :: here, ?_, ?_⟩
        · rw [map_cons, mapM_cons, compare_of_not_alike hthreshold halike hrows, hhere]
          rfl
        · rw [filter_cons_of_neg (by simpa using halike)]
          exact hreports
  · refine ⟨[], ?_, ?_⟩
    · rw [comparisons, if_pos (by simpa [nonempty_tokenRows_iff] using hrows)]
    · rw [filter_eq_nil_iff.mpr fun b _ => by simpa using fun h => hrows h.left]
      exact .nil

/-- **There is a finding for each pair of alike functions.** -/
lemma exists_comparePairs_reports (hbudget : Datum.ordered .gt (.float 0) s.timeBudget = .ok false)
    {compared : List FunctionUnit} (hlines : ∀ fn ∈ compared, HasLines fn) :
    ∃ found, comparePairs s (compared.map (printed k)) = .ok found ∧
      Forall₂ (fun ab => IsReport k ab.1 ab.2) (relatedPairs (Alike k s.threshold) compared) found := by
  induction compared with
  | nil => exact ⟨[], rfl, .nil⟩
  | cons a rest ih =>
    have hrest : ∀ b ∈ rest, HasLines b := fun b hb => hlines b (mem_cons_of_mem _ hb)
    obtain ⟨here, hhere, hfirst⟩ :=
      exists_comparisons_reports (k := k) hthreshold (hlines a mem_cons_self) hrest
    obtain ⟨others, hothers, hlater⟩ := ih hrest
    refine ⟨_, (comparePairs_cons_eq_ok hbudget).mpr ⟨here, others, hhere, hothers, rfl⟩, ?_⟩
    refine rel_append ?_ hlater
    rw [forall₂_map_left_iff]
    exact hfirst

end

/-- The findings tell the alike ones among the functions that are compared, in the order of their positions. -/
structure Reports (k : ℕ) (threshold : Datum) (compared : List FunctionUnit) (pairs : List (ℕ × ℕ))
    (found : List DuplicateFinding) : Prop where
  sorted : pairs.Pairwise (Prod.Lex (· < ·) (· < ·))
  mem_iff : ∀ i j, (i, j) ∈ pairs ↔
    i < j ∧ ∃ a b, compared[i]? = some a ∧ compared[j]? = some b ∧ Alike k threshold a b
  tells : Forall₂ (fun p f => ∃ a b, compared[p.1]? = some a ∧ compared[p.2]? = some b ∧ IsReport k a b f)
    pairs found

section

variable {maxLength : ℤ} {maxFunctions : ℕ} (hrow : s.rowLength = .int k) (hlength : s.maxLength = .int maxLength)
  (hfunctions : s.maxFunctions = .int maxFunctions) (hpos : 1 ≤ maxFunctions)
  (hthreshold : s.threshold.numeric?.isSome = true)
  (hbudget : Datum.ordered .gt (.float 0) s.timeBudget = .ok false)
include hrow hlength hfunctions hpos hthreshold hbudget

lemma exists_detect_reports {functions compared : List FunctionUnit} (hlines : ∀ fn ∈ functions, HasLines fn)
    (hcompared : (functions.filter (isShort maxLength)).take maxFunctions = compared) :
    ∃ found, detect s functions = .ok found ∧
      Reports k s.threshold compared (relatedPositions (Alike k s.threshold) compared) found := by
  have hlines : ∀ fn ∈ compared, HasLines fn := by
    rw [← hcompared]
    exact fun fn hfn => hlines fn (mem_of_mem_filter (mem_of_mem_take hfn))
  obtain ⟨found, hfound, htells⟩ := exists_comparePairs_reports (k := k) hthreshold hbudget hlines
  refine ⟨found, ?_, pairwise_relatedPositions _, fun i j => mem_relatedPositions, ?_⟩
  · rw [detect_eq hrow hlength hfunctions (by omega), Int.toNat_natCast, hcompared]
    exact hfound
  · refine (forall₂_comp (forall₂_relatedPositions compared) htells).imp ?_
    rintro p f ⟨⟨a, b⟩, ⟨hleft, hright⟩, hreport⟩
    exact ⟨a, b, hleft, hright, hreport⟩

/-- **The findings are exactly the pairs of alike functions**: among the first functions that are short enough, every
pair of alike ones is told once, in the order of the positions, with the files in that order and the similarity of their
rows. If nothing is left out, another order of the functions gives the same unordered pairs.

**Proof sketch.** The comparisons with one function report the alike ones behind it, so by induction the findings follow
the related pairs of the list, whose positions are sorted. Without order these are the related ones among all unordered
pairs of the list, and a permutation of the list permutes those. -/
theorem detect_reports_alike_pairs {functions : List FunctionUnit} (hlines : ∀ fn ∈ functions, HasLines fn) :
    (∃ found pairs, detect s functions = .ok found ∧
      Reports k s.threshold ((functions.filter (isShort maxLength)).take maxFunctions) pairs found) ∧
    (functions.length ≤ maxFunctions → (∀ fn ∈ functions, isShort maxLength fn = true) →
      ∀ functions' : List FunctionUnit, functions'.Perm functions →
        ∃ found pairs found' pairs', detect s functions = .ok found ∧ Reports k s.threshold functions pairs found ∧
          detect s functions' = .ok found' ∧ Reports k s.threshold functions' pairs' found' ∧
          (pairs'.map (Sequence.itemsAt functions')).Perm (pairs.map (Sequence.itemsAt functions))) := by
  have hreports := @exists_detect_reports s k maxLength maxFunctions hrow hlength hfunctions hpos hthreshold hbudget
  constructor
  · obtain ⟨found, hfound, h⟩ := hreports hlines rfl
    exact ⟨found, _, hfound, h⟩
  · intro hcount hshort functions' hperm
    -- nothing is left out of a list that has the same functions
    have hall (xs : List FunctionUnit) (hxs : xs.Perm functions) :
        (xs.filter (isShort maxLength)).take maxFunctions = xs := by
      rw [List.filter_eq_self.mpr fun fn hfn => hshort fn (hxs.mem_iff.mp hfn)]
      exact List.take_of_length_le (hxs.length_eq ▸ hcount)
    obtain ⟨found, hfound, h⟩ := hreports hlines (hall functions (List.Perm.refl _))
    obtain ⟨found', hfound', h'⟩ :=
      hreports (fun fn hfn => hlines fn (hperm.mem_iff.mp hfn)) (hall functions' hperm)
    refine ⟨found, _, found', _, hfound, h, hfound', h', ?_⟩
    rw [Sequence.map_itemsAt, Sequence.map_itemsAt]
    have hsymm : Std.Symm (Alike k s.threshold) := ⟨fun _ _ => Alike.symm⟩
    exact (Sequence.perm_relatedPairs hsymm not_alike_self hperm).map _

end

/-- A sum, a renamed copy of it in another file, and the sum once more. -/
def copies : List FunctionUnit :=
  [oneLiner "a.py" "x = a1 + b*(c - 10);", oneLiner "b.py" "total  =\n sum + delta*(rest - 7);",
    oneLiner "a.py" "y = a2 + b*(c - 11);"]

/-- The copy is found with both sums, and the sums, which are of one file, are not; so it is the other way round. -/
theorem detect_reports_copies :
    (detect {} copies).toOption.map (fun found => found.map (·.files)) = some [("a.py", "b.py"), ("b.py", "a.py")] ∧
      ∃ found pairs found' pairs', detect {} copies = .ok found ∧ Reports 7 (.float 0.9) copies pairs found ∧
        detect {} copies.reverse = .ok found' ∧ Reports 7 (.float 0.9) copies.reverse pairs' found' ∧
        (pairs'.map (Sequence.itemsAt copies.reverse)).Perm (pairs.map (Sequence.itemsAt copies)) := by
  have hlines : ∀ fn ∈ copies, HasLines fn := by
    intro fn hfn
    simp only [copies, List.mem_cons, List.not_mem_nil, or_false] at hfn
    rcases hfn with rfl | rfl | rfl <;> exact ⟨1, 1, rfl, rfl⟩
  have hfunctions : ({} : Settings).maxFunctions = .int (400 : ℕ) := rfl
  have hshort : ∀ fn ∈ copies, isShort 2000 fn = true := by decide +kernel
  exact ⟨by decide +kernel, (detect_reports_alike_pairs (k := 7) rfl rfl hfunctions (by decide) rfl rfl hlines).2
    (by decide) hshort copies.reverse (List.reverse_perm _)⟩

end CodeAudit.Duplication
