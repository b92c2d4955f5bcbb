import CodeAudit.Proofs.Analysis.Detect
import CodeAudit.Proofs.Number.Nearest
import CodeAudit.Proofs.Script.Address

/-!
# Branches of nested functions

A walk through the tree of a function meets each of its branches once, those of the functions inside it included. So a
function has all branches of the functions inside it, and it is too complex for every threshold that one of these
reaches.

## Main definitions

* `Source.branchPlaces` — the places of the branches of a tree.

## Main results

* `Source.encard_branchPlaces` — a walk meets each branch once.
* `Complexity.inspect_mono` — more branches reach every threshold that fewer do.
* `Source.nested_functions_reported` — both results about the functions of a program.
-/

namespace CodeAudit

open Script Outcome

namespace Source

variable {n m : Node}

/-- **The places of the branches of a tree**, by their addresses. -/
def branchPlaces (n : Node) : Set (List ℕ) :=
  {p | ∃ m, n.at? p = some m ∧ m.shape ∈
    [.ifStmt, .forLoop, .whileLoop, .tryStmt, .withStmt, .boolOp, .ifExp, .exceptHandler]}

lemma isBranch_iff : isBranch n = true ↔ n.shape ∈
    [.ifStmt, .forLoop, .whileLoop, .tryStmt, .withStmt, .boolOp, .ifExp, .exceptHandler] := by
  rw [isBranch]
  cases n.shape <;> simp

/-- **A walk meets each branch once.** -/
lemma encard_branchPlaces (n : Node) : (branchPlaces n).encard = branches n := by
  obtain ⟨row, hnodup, hrow, hnodes⟩ := n.exists_addresses_filter isBranch
  have hplaces : branchPlaces n = row.toFinset := by
    ext p
    simp only [branchPlaces, Set.mem_ofPred_eq, List.coe_toFinset, hrow, isBranch_iff]
  rw [hplaces, Set.encard_coe_eq_coe_finsetCard, List.toFinset_card_of_nodup hnodup, hnodes.length_eq,
    ← List.countP_eq_length_filter, branches]

/-- Below a node, a tree has the branches of the node. -/
lemma encard_branchPlaces_le {q : List ℕ} (h : n.at? q = some m) :
    (branchPlaces m).encard ≤ (branchPlaces n).encard := by
  rw [← (List.append_right_injective q).encard_image]
  refine Set.encard_le_encard ?_
  rintro _ ⟨p, ⟨b, hb, hshape⟩, rfl⟩
  exact ⟨b, by rw [Node.at?_append, h, Option.bind_some, hb], hshape⟩

/-- The functions of a tree are those at its addresses. -/
lemma mem_functionsOf {path : Path} {source : String} {p : List ℕ} (hp : n.at? p = some m) (hm : m.isFunction = true) :
    functionUnit path (Text.physicalLines source) m ∈ functionsOf path source n := by
  refine List.mem_map_of_mem (List.mem_filter.mpr ⟨?_, hm⟩)
  rw [n.levelOrder_perm.mem_iff, ← n.filterMap_at?_addresses]
  exact List.mem_filterMap.mpr ⟨p, Node.mem_addresses_iff.mpr ⟨m, hp⟩, hp⟩

end Source

namespace Complexity

variable {threshold : Datum}

/-- A threshold that an integer reaches is reached by all greater ones. -/
lemma ordered_ge_mono {v w : ℤ} (h : v ≤ w) (hv : Datum.ordered .ge (.int v) threshold = .ok true) :
    Datum.ordered .ge (.int w) threshold = .ok true := by
  rcases ordered_int_cases .ge threshold with ⟨n, -, hordered⟩ | hfails
  · rw [hordered] at hv ⊢
    have hv := Except.ok.inj hv
    congr 1
    cases n with
    | int k =>
      simp only [Datum.Numeric.compare?, Option.elim_some, Datum.Sign.holds, bne_iff_ne, compare_ge_iff_ge] at hv ⊢
      omega
    | float x =>
      simp only [Datum.Numeric.compare?, Number.compareInt?] at hv ⊢
      cases hform : Number.Form.ofFloat x with
      | nan =>
        rw [hform] at hv
        cases hv
      | infinite negative =>
        rw [hform] at hv
        exact hv
      | finite negative a q =>
        rw [hform] at hv
        simp only [Number.compareFinite, Option.elim_some, Datum.Sign.holds, bne_iff_ne, compare_ge_iff_ge] at hv ⊢
        exact hv.trans (Int.mul_le_mul_of_nonneg_right h (by omega))
  · obtain ⟨e, he⟩ := hfails v
    cases he.symm.trans hv

/-- **More branches reach every threshold that fewer do**, with a value that is not less, if the functions have
complexities at all. -/
lemma inspect_mono {path : Path} {lines : List (List Char)} {f g : Node} (h : Source.branches g ≤ Source.branches f)
    {x : ComplexityFinding} (hx : inspect threshold (Source.functionUnit path lines g) = .ok (some x))
    {found : Option ComplexityFinding} (hfound : inspect threshold (Source.functionUnit path lines f) = .ok found) :
    ∃ y, found = some y ∧ x.value ≤ y.value := by
  obtain ⟨hvalue, hreached, -⟩ := Analysis.of_inspect hx
  unfold inspect at hfound
  obtain ⟨value, hcomplexity, hfound⟩ := bind_eq_ok.mp hfound
  have hle : x.value ≤ value := by
    have := Number.le_of_truncate_ofInt h (Modules.truncate_of_complexity hvalue)
      (Modules.truncate_of_complexity hcomplexity)
    omega
  obtain ⟨above, habove, hfound⟩ := bind_eq_ok.mp hfound
  obtain rfl := Except.ok.inj (habove.symm.trans (ordered_ge_mono hle hreached))
  obtain ⟨bound, -, hfound⟩ := bind_eq_ok.mp hfound
  exact ⟨_, (Except.ok.inj hfound).symm, hle⟩

end Complexity

namespace Source

/-- **A walk counts each branch of a function once, and an outer function is as complex as those inside it.** The
outline of a program has one entry for every definition of a function, at any depth, and its metric is the number of the
branches below the definition. A definition inside another one has no more of them, and if it is reported for
some threshold, then so is the outer one, with a value that is not less.

**Proof sketch.** A walk goes through the addresses of a tree, each of them once (`Node.exists_addresses_filter`). The
addresses below an inner node, behind that of the node, are addresses of the tree. The doubles that the numbers become
keep the order (`Number.le_of_truncate_ofInt`), and so does the comparison with a threshold. -/
theorem nested_functions_reported (path : Path) {source : String} {tree : Node} (h : parse source = .ok tree) :
    ∃ functions, outline path source = .ok ⟨path, .python, functions⟩ ∧
      (∃ places : List (List ℕ), places.Nodup ∧
        (∀ p, p ∈ places ↔ ∃ f, tree.at? p = some f ∧ f.isFunction = true) ∧
        List.Forall₂ (fun p fn => ∃ f, ∃ count : ℕ, tree.at? p = some f ∧
          fn = functionUnit path (Text.physicalLines source) f ∧ (branchPlaces f).encard = count ∧
          fn.metric? branchCount = some (.float (Number.ofInt count))) places functions) ∧
      ∀ p q f g, tree.at? p = some f → f.isFunction = true → f.at? q = some g → g.isFunction = true →
        (branchPlaces g).encard ≤ (branchPlaces f).encard ∧
        ∀ threshold findings, Complexity.detect threshold functions = .ok findings →
          ∀ x, Complexity.inspect threshold (functionUnit path (Text.physicalLines source) g) = .ok (some x) →
            x ∈ findings ∧ ∃ y ∈ findings, Complexity.inspect threshold
              (functionUnit path (Text.physicalLines source) f) = .ok (some y) ∧ x.value ≤ y.value := by
  refine ⟨functionsOf path source tree, by rw [outline, h]; rfl, ?_, ?_⟩
  · obtain ⟨places, hnodup, hplaces, hnodes⟩ := tree.exists_addresses_filter Node.isFunction
    refine ⟨places, hnodup, hplaces, List.forall₂_map_right_iff.mpr (hnodes.imp fun p f hf => ?_)⟩
    exact ⟨f, _, hf, rfl, encard_branchPlaces f, rfl⟩
  · intro p q f g hp hf hq hg
    have hle := encard_branchPlaces_le hq
    refine ⟨hle, fun threshold findings hfindings x hx => ?_⟩
    rw [encard_branchPlaces, encard_branchPlaces, Nat.cast_le] at hle
    obtain ⟨found, hfound, rfl⟩ := map_eq_ok.mp hfindings
    have hmem : ∀ {r n}, tree.at? r = some n → n.isFunction = true → ∀ {z},
        Complexity.inspect threshold (functionUnit path (Text.physicalLines source) n) = .ok (some z) →
          z ∈ found.filterMap id := by
      intro r n hr hn z hz
      exact List.mem_filterMap.mpr ⟨some z, mem_of_mapM hfound (mem_functionsOf hr hn) hz, rfl⟩
    obtain ⟨result, -, hresult⟩ := exists_mem_of_mapM hfound (mem_functionsOf hp hf)
    obtain ⟨y, rfl, hvalue⟩ := Complexity.inspect_mono hle hx hresult
    have hpq : tree.at? (p ++ q) = some g := by rw [Node.at?_append, hp, Option.bind_some, hq]
    exact ⟨hmem hpq hg hx, y, hmem hp hf hresult, hresult, hvalue⟩

/-- A function inside another one, each with a branch of its own. -/
def nested : String := "def f(a):\n def g():\n  if a: a\n if a: a\n"

/-- The inner function has a complexity of two, so the outer one is reported for this threshold, too. -/
theorem nested_functions_reported_inner : ∃ tree f findings, parse nested = .ok tree ∧ tree.at? [0] = some f ∧
    Complexity.detect (.int 2) (functionsOf ⟨"", ["a.py"]⟩ nested tree) = .ok findings ∧
    ∃ y ∈ findings, Complexity.inspect (.int 2)
      (functionUnit ⟨"", ["a.py"]⟩ (Text.physicalLines nested) f) = .ok (some y) ∧ 2 ≤ y.value := by
  have hfacts : ((parse nested).toOption.bind fun tree => (tree.at? [0]).bind fun f => (f.at? [1]).bind fun g =>
      (Complexity.detect (.int 2) (functionsOf ⟨"", ["a.py"]⟩ nested tree)).toOption.bind fun findings =>
      (Complexity.inspect (.int 2) (functionUnit ⟨"", ["a.py"]⟩ (Text.physicalLines nested) g)).toOption.map fun x =>
        (f.isFunction, g.isFunction, x.map (·.value))) = some (true, true, some 2) := by
    decide +kernel
  simp only [Option.bind_eq_some_iff, Option.map_eq_some_iff, Prod.mk.injEq] at hfacts
  obtain ⟨tree, htree, f, hf, g, hg, findings, hfindings, _, hfound, hisf, hisg, x, rfl, hx⟩ := hfacts
  have hparse := eq_ok_of_toOption htree
  obtain ⟨functions, houtline, -, hnested⟩ := nested_functions_reported ⟨"", ["a.py"]⟩ hparse
  rw [outline, hparse] at houtline
  obtain rfl : functionsOf _ nested tree = functions := congrArg ModuleUnit.functions (Except.ok.inj houtline)
  obtain ⟨-, y, hy, hinspect, hle⟩ := (hnested [0] [1] f g hf hisf hg hisg).2 _ findings
    (eq_ok_of_toOption hfindings) x (eq_ok_of_toOption hfound)
  exact ⟨tree, f, findings, hparse, hf, eq_ok_of_toOption hfindings, y, hy, hinspect, hx ▸ hle⟩

end Source

end CodeAudit
