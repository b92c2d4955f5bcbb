import CodeAudit.Proofs.Analysis.Run
import CodeAudit.Proofs.Sequence

/-!
# Findings and the files that they tell

Every finding tells the file in which it was found. A detector that goes through a row of files or functions fails as
a whole if one of its steps fails, and then nothing at all is found. This module says what is left of a row of
findings if those on one file are left out, and when the steps of the detectors fail.

## Main results

* `Analysis.filter_orNothing_mapM` — what is left of two rows of findings that differ in some items.
* `Complexity.inspect_cases` — a threshold suits all functions or none.
-/

namespace CodeAudit

open List Outcome Modules Datum

/-! ## Rows that fail as a whole -/

namespace Outcome

/-- A row fails exactly if one of its steps does. -/
lemma exists_mapM_eq_error_iff {ε α β : Type} {f : α → Except ε β} {xs : List α} :
    (∃ e, xs.mapM f = .error e) ↔ ∃ x ∈ xs, ∃ e, f x = .error e := by
  constructor
  · rintro ⟨e, h⟩
    obtain ⟨x, hx, hfx⟩ := exists_of_mapM_eq_error h
    exact ⟨x, hx, e, hfx⟩
  · rintro ⟨x, hx, e, hfx⟩
    cases h : xs.mapM f with
    | error e' => exact ⟨e', rfl⟩
    | ok ys =>
      obtain ⟨y, -, hy⟩ := exists_mem_of_mapM h hx
      rw [hfx] at hy
      cases hy

/-- If a row succeeds, what is left of its results is what its steps leave. -/
lemma filter_filterMap_of_mapM {ε α β : Type} {f : α → Except ε (Option β)} {xs : List α} {ys : List (Option β)}
    (h : xs.mapM f = .ok ys) (P : β → Bool) :
    (ys.filterMap id).filter P = (xs.flatMap fun x => ((f x).toOption.join).toList).filter P := by
  have hys : ys = xs.map fun x => (f x).toOption.join := by
    have hmap := mapM_eq_ok_iff.mp h
    have hjoin := congrArg (List.map fun r : Except ε (Option β) => r.toOption.join) hmap
    simpa [map_map, Function.comp_def, Except.toOption] using hjoin.symm
  rw [Sequence.filter_filterMap_id, hys, flatMap_map, ← filter_flatMap]

end Outcome

namespace Analysis

variable {α β : Type}

/-- **What is left of two rows of findings that differ in some items.** If the items that are kept are the same, and
an item that is left out makes the one row fail exactly if one makes the other fail, then the findings on the
items that are kept are the same.

**Proof sketch.** Either row fails exactly if one of its steps does. By the hypotheses the steps that fail are the
same or stand for each other, so both rows fail, and nothing is found, or both succeed. Then the findings are those
of the steps, and all that comes from items that are left out is left out. -/
lemma filter_orNothing_mapM (keep : α → Bool) {f g : α → Except Fault (Option β)} {xs ys : List α} {P : β → Bool}
    (hsame : ys.filter keep = xs.filter keep) (hagree : ∀ x ∈ xs, keep x = true → g x = f x)
    (hfails : (∃ x ∈ xs, keep x = false ∧ ∃ e, f x = .error e) ↔ ∃ y ∈ ys, keep y = false ∧ ∃ e, g y = .error e)
    (hxs : ∀ x ∈ xs, keep x = false → ∀ found, f x = .ok (some found) → P found = false)
    (hys : ∀ y ∈ ys, keep y = false → ∀ found, g y = .ok (some found) → P found = false) :
    ((∃ e, xs.mapM f = .error e) ↔ ∃ e, ys.mapM g = .error e) ∧
      (orNothing ((ys.mapM g).map (filterMap id))).filter P =
        (orNothing ((xs.mapM f).map (filterMap id))).filter P := by
  have hmem : ∀ x, keep x = true → (x ∈ xs ↔ x ∈ ys) := by
    intro x hx
    have hiff : x ∈ ys.filter keep ↔ x ∈ xs.filter keep := by rw [hsame]
    simpa [mem_filter, hx] using hiff.symm
  have hboth : (∃ e, xs.mapM f = .error e) ↔ ∃ e, ys.mapM g = .error e := by
    rw [exists_mapM_eq_error_iff, exists_mapM_eq_error_iff]
    constructor
    · rintro ⟨x, hx, e, he⟩
      cases hkeep : keep x with
      | true => exact ⟨x, (hmem x hkeep).mp hx, e, (hagree x hx hkeep).trans he⟩
      | false =>
        obtain ⟨y, hy, -, he⟩ := hfails.mp ⟨x, hx, hkeep, e, he⟩
        exact ⟨y, hy, he⟩
    · rintro ⟨y, hy, e, he⟩
      cases hkeep : keep y with
      | true =>
        have hx := (hmem y hkeep).mpr hy
        exact ⟨y, hx, e, (hagree y hx hkeep).symm.trans he⟩
      | false =>
        obtain ⟨x, hx, -, he⟩ := hfails.mpr ⟨y, hy, hkeep, e, he⟩
        exact ⟨x, hx, he⟩
  refine ⟨hboth, ?_⟩
  cases hf : xs.mapM f with
  | error e =>
    obtain ⟨e', hg⟩ := hboth.mp ⟨e, hf⟩
    rw [hg]
    rfl
  | ok founds =>
    cases hg : ys.mapM g with
    | error e' =>
      obtain ⟨e, he⟩ := hboth.mpr ⟨e', hg⟩
      rw [hf] at he
      cases he
    | ok founds' =>
      change (founds'.filterMap id).filter P = (founds.filterMap id).filter P
      have hdropped : ∀ {k : α → Except Fault (Option β)} {x : α},
          (∀ found, k x = .ok (some found) → P found = false) →
            ∀ found ∈ ((k x).toOption.join).toList, P found = false := by
        intro k x hk found hfound
        cases hkx : k x with
        | error e => simp [hkx, Except.toOption] at hfound
        | ok o =>
          cases o with
          | none => simp [hkx, Except.toOption] at hfound
          | some y =>
            obtain rfl : found = y := by simpa [hkx, Except.toOption] using hfound
            exact hk found hkx
      rw [filter_filterMap_of_mapM hf, filter_filterMap_of_mapM hg,
        Sequence.filter_flatMap_filter fun x hx hkeep => hdropped (hxs x hx hkeep),
        Sequence.filter_flatMap_filter fun y hy hkeep => hdropped (hys y hy hkeep), hsame]
      congr 1
      refine flatMap_congr fun x hx => ?_
      rw [mem_filter] at hx
      rw [hagree x hx.1 hx.2]

/-! ## The file that a finding tells -/

/-- The hazards of a module depend on the tree of files only by the text of the module. -/
lemma hazardsOf_congr {fs gs : Files} {root : Path} {m : ModuleUnit}
    (h : sourceText gs root m.path = sourceText fs root m.path) :
    hazardsOf gs root m = hazardsOf fs root m := by
  unfold hazardsOf
  rw [h]

lemma file_of_mem_hazardsOf {fs : Files} {root : Path} {m : ModuleUnit} {f : SecurityFinding}
    (hf : f ∈ hazardsOf fs root m) : f.file = m.path.toString := by
  have htext : ∀ source, f ∈ Security.scanText m.path source → f.file = m.path.toString := by
    intro source hmem
    obtain ⟨s, -, rfl⟩ := mem_map.mp hmem
    rfl
  unfold hazardsOf at hf
  simp only at hf
  split at hf
  · unfold Security.scanScript at hf
    split at hf
    · obtain ⟨node, -, hmem⟩ := mem_flatMap.mp hf
      obtain ⟨hazard, -, rfl⟩ := mem_map.mp hmem
      rfl
    · cases hf
  · exact htext _ hf
  · exact htext _ hf
  · cases hf

end Analysis

namespace Testing

lemma file_of_mem_moduleDocumentation {fs : Files} {root path : Path} {lang : Language} {f : DocumentationFinding}
    (hf : f ∈ moduleDocumentation fs root path lang) : f.file = path.toString := by
  unfold moduleDocumentation at hf
  split_ifs at hf
  · unfold Documentation.detect at hf
    split at hf
    · rename_i tree _
      rcases mem_append.mp hf with hmodule | hdefinition
      · split_ifs at hmodule
        · cases hmodule
        · rw [mem_singleton.mp hmodule]
          rfl
      · obtain ⟨node, -, hinspect⟩ := mem_filterMap.mp hdefinition
        unfold Documentation.inspect? at hinspect
        split_ifs at hinspect
        split at hinspect
        · rw [← Option.some.inj hinspect]
          rfl
        · rw [← Option.some.inj hinspect]
          rfl
        · rw [← Option.some.inj hinspect]
          rfl
        · cases hinspect
    · cases hf
  · cases hf

lemma file_of_inspect {fs : Files} {root source : Path} {gap : TestGap}
    (h : inspect fs root source = .ok (some gap)) : gap.file = source.toString := by
  unfold inspect at h
  split_ifs at h
  · cases Except.ok.inj h
  · obtain ⟨tested, -, h⟩ := bind_eq_ok.mp h
    cases tested with
    | true => cases Except.ok.inj h
    | false =>
      rw [← Option.some.inj (Except.ok.inj h)]
      rfl

end Testing

/-! ## Complex functions -/

namespace Complexity

/-- A number compared with a value: the value is a number, or all comparisons fail. -/
lemma ordered_int_cases (sign : Datum.Sign) (threshold : Datum) :
    (∃ n, threshold.numeric? = some n ∧ ∀ value : ℤ, ordered sign (.int value) threshold =
      .ok (((Numeric.int value).compare? n).elim false sign.holds)) ∨
    ∀ value : ℤ, ∃ e, ordered sign (.int value) threshold = .error e := by
  have hordered : ∀ value : ℤ, ordered sign (.int value) threshold =
      match threshold.numeric? with
      | some n => .ok (((Numeric.int value).compare? n).elim false sign.holds)
      | none => .error (.unordered sign.text (Datum.int value).kind threshold.kind) := by
    intro value
    rw [ordered]
    · cases threshold.numeric? <;> rfl
    all_goals simp
  cases hnumeric : threshold.numeric? with
  | none => exact .inr fun value => ⟨_, by rw [hordered, hnumeric]⟩
  | some n => exact .inl ⟨n, rfl, fun value => by rw [hordered, hnumeric]⟩

/-- **A threshold suits all complexities or none**: either a complexity can be compared with it, and it is a double
where it is reached, or no complexity gives a result. -/
lemma threshold_cases (threshold : Datum) :
    (∀ value : ℤ, value.natAbs ≤ Number.greatest + 1 → ∃ above, ordered .ge (.int value) threshold = .ok above ∧
      (above = true → ∃ x, threshold.toFloat = .ok x)) ∨
    ∀ value : ℤ, value.natAbs ≤ Number.greatest + 1 → (∃ e, ordered .ge (.int value) threshold = .error e) ∨
      ordered .ge (.int value) threshold = .ok true ∧ ∃ e, threshold.toFloat = .error e := by
  rcases ordered_int_cases .ge threshold with ⟨n, hn, hordered⟩ | hfails
  · by_cases hfloat : ∃ x, threshold.toFloat = .ok x
    · exact .inl fun value _ => ⟨_, hordered value, fun _ => hfloat⟩
    · -- the threshold is an integer that is too great for a double, above or below all complexities
      obtain ⟨m, rfl⟩ : ∃ m, threshold = .int m := by
        cases threshold with
        | int m => exact ⟨m, rfl⟩
        | bool b => exact absurd ⟨_, rfl⟩ hfloat
        | float x => exact absurd ⟨x, rfl⟩ hfloat
        | _ => cases hn
      obtain rfl : Numeric.int m = n := Option.some.inj hn
      have hgreat : Number.greatest + 1 < m.natAbs := by
        by_contra hle
        exact hfloat ⟨_, intToFloat_eq_ok (not_lt.mp hle)⟩
      have hge : ∀ value : ℤ, ordered .ge (.int value) (.int m) = .ok (decide (m ≤ value)) := by
        intro value
        rw [hordered]
        congr 1
        change (compare value m != .lt) = decide (m ≤ value)
        rw [Bool.eq_iff_iff, bne_iff_ne, decide_eq_true_iff, compare_ge_iff_ge]
      obtain hm | hm := lt_or_ge m 0
      · right
        intro value hvalue
        right
        refine ⟨?_, ?_⟩
        · rw [hge, decide_eq_true (by omega)]
        · cases hconvert : (Datum.int m).toFloat with
          | error e => exact ⟨e, rfl⟩
          | ok x => exact absurd ⟨x, hconvert⟩ hfloat
      · left
        intro value hvalue
        refine ⟨false, ?_, by simp⟩
        rw [hge, decide_eq_false (by omega)]
  · exact .inr fun value _ => .inl (hfails value)

/-- A function whose complexity, if it is told at all, can be a double. -/
def Bounded (fn : FunctionUnit) : Prop :=
  ∀ value, complexity fn = .ok value → value.natAbs ≤ Number.greatest + 1

/-- **A threshold suits all functions or none**: either a function gives a result exactly if its complexity is told,
or no function gives one. -/
lemma inspect_cases (threshold : Datum) :
    (∀ fn, Bounded fn → ((∃ e, inspect threshold fn = .error e) ↔ ∃ e, complexity fn = .error e)) ∨
      ∀ fn, Bounded fn → ∃ e, inspect threshold fn = .error e := by
  rcases threshold_cases threshold with hsuits | hnot
  · refine .inl fun fn hfn => ?_
    unfold inspect
    cases hvalue : complexity fn with
    | error e => exact iff_of_true ⟨e, rfl⟩ ⟨e, rfl⟩
    | ok value =>
      refine iff_of_false ?_ (by simp)
      obtain ⟨above, hordered, hfloat⟩ := hsuits value (hfn value hvalue)
      simp only [bind, Except.bind, hordered]
      cases above with
      | false => simp [pure, Except.pure]
      | true =>
        obtain ⟨x, hx⟩ := hfloat rfl
        simp [hx, pure, Except.pure]
  · refine .inr fun fn hfn => ?_
    unfold inspect
    cases hvalue : complexity fn with
    | error e => exact ⟨e, rfl⟩
    | ok value =>
      rcases hnot value (hfn value hvalue) with ⟨e, he⟩ | ⟨htrue, e, he⟩
      · exact ⟨e, by simp [bind, Except.bind, he]⟩
      · exact ⟨e, by simp [bind, Except.bind, htrue, he]⟩

/-- With a threshold that suits no function nothing is found. -/
lemma orNothing_detect_eq_nil {threshold : Datum} {functions : List FunctionUnit}
    (h : ∀ fn ∈ functions, ∃ e, inspect threshold fn = .error e) :
    Analysis.orNothing (detect threshold functions) = [] := by
  cases functions with
  | nil => rfl
  | cons fn functions =>
    obtain ⟨e, he⟩ := h fn mem_cons_self
    obtain ⟨e', he'⟩ := exists_mapM_eq_error_iff.mpr ⟨fn, mem_cons_self (l := functions), e, he⟩
    rw [detect, he']
    rfl

section Functions

variable {fs : Files} {root : Path} {paths : List Path} {modules : List ModuleUnit}
  (h : readAll fs root paths = .ok modules)

include h

/-- A function carries the path of its module, and its complexity is bounded. -/
lemma of_mem_functions {m : ModuleUnit} (hm : m ∈ modules) {fn : FunctionUnit} (hfn : fn ∈ m.functions) :
    fn.path = m.path ∧ Bounded fn := by
  obtain ⟨path, -, hmodule⟩ := exists_of_mem_mapM h hm
  obtain ⟨tree, node, -, -, rfl⟩ := Modules.of_mem_functions hmodule hfn
  exact ⟨(path_of_readModule hmodule).symm, fun value hvalue => natAbs_complexity_le hvalue⟩

lemma bounded_of_mem {fn : FunctionUnit} (hfn : fn ∈ modules.flatMap (·.functions)) : Bounded fn := by
  obtain ⟨m, hm, hfn⟩ := mem_flatMap.mp hfn
  exact (of_mem_functions h hm hfn).2

/-- The functions of some modules are those that carry their paths. -/
lemma filter_functions (keep : Path → Bool) :
    (modules.flatMap (·.functions)).filter (keep ·.path) =
      ((modules.filter (keep ·.path)).flatMap (·.functions)).filter (keep ·.path) := by
  refine Sequence.filter_flatMap_filter fun m hm hkeep fn hfn => ?_
  rw [(of_mem_functions h hm hfn).1]
  exact hkeep

/-- With a threshold that suits all functions, no function of a path fails whose complexities are told. -/
lemma not_exists_error {threshold : Datum} {path : Path}
    (hsuits : ∀ fn, Bounded fn → ((∃ e, inspect threshold fn = .error e) ↔ ∃ e, complexity fn = .error e))
    (hcount : ∀ m ∈ modules, m.path = path → ∀ fn ∈ m.functions, ∃ value, complexity fn = .ok value) :
    ¬ ∃ fn ∈ modules.flatMap (·.functions), fn.path = path ∧ ∃ e, inspect threshold fn = .error e := by
  rintro ⟨fn, hfn, rfl, hfails⟩
  obtain ⟨m, hm, hfn⟩ := mem_flatMap.mp hfn
  obtain ⟨hpath, hbounded⟩ := of_mem_functions h hm hfn
  obtain ⟨value, hvalue⟩ := hcount m hm hpath.symm fn hfn
  obtain ⟨e, he⟩ := (hsuits fn hbounded).mp hfails
  rw [hvalue] at he
  cases he

end Functions

end Complexity

/-! ## Documentation and tests -/

namespace Testing

/-- The paths of the scripts among modules. -/
def scripts (modules : List ModuleUnit) : List Path :=
  (modules.filter (·.lang = .python)).map (·.path)

/-- The scripts that are kept are those of the modules that are kept. -/
lemma filter_scripts (keep : Path → Bool) (modules : List ModuleUnit) :
    (scripts modules).filter keep = scripts (modules.filter (keep ·.path)) := by
  rw [scripts, scripts, filter_map, filter_filter, filter_filter]
  congr 2
  funext m
  exact Bool.and_comm _ _

/-- What is found by asking for documentation and tests: both, or nothing at all if one file cannot be asked for its
tests. -/
lemma inspectModules_eq (fs : Files) (root : Path) (modules : List ModuleUnit) :
    (inspectModules fs root (modules.map fun m => (m.path, m.lang))).toOption.getD ([], []) =
      match (scripts modules).mapM (inspect fs root) with
      | .ok gaps => (modules.flatMap fun m => moduleDocumentation fs root m.path m.lang, gaps.filterMap id)
      | .error _ => ([], []) := by
  have hscripts : ((modules.map fun m => (m.path, m.lang)).filter (·.2 = .python)).map (·.1) = scripts modules := by
    rw [scripts, filter_map, map_map]
    rfl
  rw [inspectModules, detect, hscripts, flatMap_map]
  cases (scripts modules).mapM (inspect fs root) with
  | error e => rfl
  | ok gaps => rfl

/-- A path is that of a script that was read exactly if it was to be read and ends like a script. -/
lemma mem_scripts_iff {fs : Files} {root path : Path} {paths : List Path} {modules : List ModuleUnit}
    (h : readAll fs root paths = .ok modules) :
    path ∈ scripts modules ↔ path ∈ paths ∧ IsScript root path := by
  have hlang : ∀ m ∈ modules, m.lang = .python ↔ IsScript root m.path := by
    intro m hm
    obtain ⟨path, -, hmodule⟩ := exists_of_mem_mapM h hm
    rw [path_of_readModule hmodule]
    rcases readModule_cases fs root path with ⟨hno, lang, hlang, hok⟩ | ⟨hscript, tree, -, hok⟩ | ⟨e, -, herror⟩
    · obtain rfl := Except.ok.inj (hok.symm.trans hmodule)
      exact iff_of_false hlang hno
    · obtain rfl := Except.ok.inj (hok.symm.trans hmodule)
      exact iff_of_true rfl hscript
    · rw [herror] at hmodule
      cases hmodule
  rw [← map_path_of_readAll h, scripts]
  simp only [mem_map, mem_filter, decide_eq_true_eq]
  constructor
  · rintro ⟨m, ⟨hm, hpython⟩, rfl⟩
    exact ⟨⟨m, hm, rfl⟩, (hlang m hm).mp hpython⟩
  · rintro ⟨⟨m, hm, rfl⟩, hscript⟩
    exact ⟨m, ⟨hm, (hlang m hm).mpr hscript⟩, rfl⟩

/-- Whether a file is tested depends on the tree of files only by what stands in it. -/
lemma inspect_eq_of_exists? {fs gs : Files} (h : ∀ path, gs.exists? path = fs.exists? path) (root source : Path) :
    inspect gs root source = inspect fs root source := by
  have hany : ∀ paths, existsAny gs root paths = existsAny fs root paths := by
    intro paths
    induction paths with
    | nil => rfl
    | cons path paths ih => simp only [existsAny, h, ih]
  rw [inspect, inspect, hany]

end Testing

end CodeAudit
