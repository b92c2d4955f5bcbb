import CodeAudit.Proofs.Detect.Loops

/-!
# How often costly work is reported

The search goes through the whole file once for every function, and keeps what begins within the lines of the function.
Functions inside functions share lines, so work inside them is reported for each of them.

## Main definitions

* `Performance.sites` — the costly work that a walk finds, by its address.
* `Performance.reported` — where the findings of a file come from.

## Main results

* `Performance.detect_functionsOf` — the findings on all functions of a file.
* `Performance.reported_for_each_function` — costly work is reported once for each function around it.
-/

namespace CodeAudit.Performance

open CodeAudit.Script List Source

variable {site : List ℕ × Kind × Node} {tree : Node}

/-- **The costly work that a walk finds**, each with its address. -/
def sites (tree : Node) : List (List ℕ × Kind × Node) :=
  tree.addresses.filterMap fun p => (foundAt false tree p).map (p, ·)

/-- The functions of a tree, level by level. -/
def functionNodes (tree : Node) : List Node :=
  tree.levelOrder.filter Node.isFunction

/-- A node begins within the lines of a function. -/
def BeginsWithin (n fn : Node) : Prop :=
  fn.firstLine ≤ n.firstLine ∧ n.firstLine ≤ fn.lastLine

instance (n fn : Node) : Decidable (BeginsWithin n fn) :=
  inferInstanceAs (Decidable (_ ∧ _))

/-- The costly work that begins within the lines of a function. -/
def sitesWithin (tree fn : Node) : List (List ℕ × Kind × Node) :=
  (sites tree).filter fun site => BeginsWithin site.2.2 fn

/-- **Where the findings of a file come from**: for each function the costly work that begins within its lines. -/
def reported (tree : Node) : List (List ℕ × Kind × Node) :=
  (functionNodes tree).flatMap (sitesWithin tree)

lemma map_snd_sites {found : List (Kind × Node)} (h : costs false tree = .ok found) :
    (sites tree).map (·.2) = found := by
  rw [found_eq h, sites, map_filterMap]
  simp [Function.comp_def]

/-- No two sites have one address. -/
lemma nodup_sites (tree : Node) : ((sites tree).map (·.1)).Nodup := by
  have hsites : (sites tree).map (·.1) = tree.addresses.filter fun p => (foundAt false tree p).isSome := by
    rw [sites, map_filterMap, ← filterMap_eq_filter]
    refine filterMap_congr fun p _ => ?_
    cases hp : foundAt false tree p <;> simp [Option.guard, hp]
  rw [hsites]
  exact (tree.pairwise_addresses.imp fun h => h.ne).filter _

/-! ## Findings -/

/-- Whether a finding begins within the lines of a function of a file. -/
lemma within_functionUnit (path : Path) (lines : List (List Char)) (fn : Node) (f : PerformanceFinding) :
    within (functionUnit path lines fn) f =
      .ok (decide (fn.firstLine ≤ f.firstLine ∧ f.firstLine ≤ fn.lastLine)) := by
  rw [within, functionUnit, ordered_le_int, ordered_le_int]
  by_cases hfirst : fn.firstLine ≤ f.firstLine <;> simp [hfirst, bind, Except.bind, pure, Except.pure]

section File

variable {fs : Files} {root path : Path} {source : String} {tree : Node}
  (hread : fs.readText (root.join path) = .ok source) (hparse : parse source = .ok tree)

include hread hparse

/-- **The findings on one function of a file**, unless the walk of the file fails. -/
lemma inspect_functionUnit (lines : List (List Char)) (fn : Node) :
    inspect fs root (functionUnit path lines fn) =
      (costs false tree).map fun _ => (sitesWithin tree fn).map fun site => findingAt path.toString site.2 := by
  have hread' : fs.readText (root.join (functionUnit path lines fn).path) = .ok source := hread
  simp only [inspect, hread', hparse]
  cases hcosts : costs false tree with
  | error e => rfl
  | ok found =>
    change (found.map (findingAt path.toString)).filterM (within (functionUnit path lines fn)) = _
    rw [Outcome.filterM_eq_ok fun f _ => within_functionUnit path lines fn f, ← map_snd_sites hcosts, map_map,
      filter_map]
    rfl

/-- The findings on all functions of a file, if the walk of the file succeeds. -/
lemma detect_functionsOf {found : List (Kind × Node)} (hcosts : costs false tree = .ok found) :
    detect fs root (functionsOf path source tree) =
      .ok ((reported tree).map fun site => findingAt path.toString site.2) := by
  have hrow : (functionsOf path source tree).mapM (inspect fs root) =
      .ok ((functionNodes tree).map fun fn => (sitesWithin tree fn).map fun site => findingAt path.toString site.2) := by
    rw [functionsOf, mapM_map]
    refine Outcome.mapM_eq_ok fun fn _ => ?_
    rw [Function.comp_apply, inspect_functionUnit hread hparse, hcosts]
    rfl
  rw [detect, hrow, reported, map_flatMap, flatMap]
  rfl

/-- The findings on all functions of a file, if their search succeeds. -/
lemma eq_of_detect {findings : List PerformanceFinding}
    (h : detect fs root (functionsOf path source tree) = .ok findings) :
    findings = (reported tree).map fun site => findingAt path.toString site.2 := by
  cases hcosts : costs false tree with
  | ok found => exact Except.ok.inj (h.symm.trans (detect_functionsOf hread hparse hcosts))
  | error e =>
    -- the search fails on every function, so there is none
    have hrow : functionsOf path source tree =
      (functionNodes tree).map (functionUnit path (Text.physicalLines source)) := rfl
    rw [reported]
    cases hnodes : functionNodes tree with
    | nil =>
      rw [hrow, hnodes] at h
      exact (Except.ok.inj h).symm
    | cons fn rest =>
      rw [hrow, hnodes, map_cons, detect, mapM_cons, inspect_functionUnit hread hparse, hcosts] at h
      cases h

end File

/-! ## Repetitions -/

/-- Among the sites within the lines of a function, an address is there once if the site at it is, and else not. -/
lemma countP_sitesWithin (h : site ∈ sites tree) (fn : Node) :
    (sitesWithin tree fn).countP (·.1 = site.1) = if BeginsWithin site.2.2 fn then 1 else 0 := by
  have hcount : (sitesWithin tree fn).countP (·.1 = site.1) = ((sitesWithin tree fn).map (·.1)).count site.1 := by
    rw [List.count, countP_map]
    exact countP_congr fun other _ => by simp
  have hnodup : ((sitesWithin tree fn).map (·.1)).Nodup := (nodup_sites tree).sublist (filter_sublist.map _)
  have hmem : site.1 ∈ (sitesWithin tree fn).map (·.1) ↔ BeginsWithin site.2.2 fn := by
    rw [mem_map]
    constructor
    · rintro ⟨other, hother, hp⟩
      obtain ⟨hother, hwithin⟩ := mem_filter.mp hother
      obtain rfl := inj_on_of_nodup_map (nodup_sites tree) hother h hp
      exact of_decide_eq_true hwithin
    · exact fun hwithin => ⟨site, mem_filter.mpr ⟨h, decide_eq_true hwithin⟩, rfl⟩
  rw [hcount, hnodup.count]
  exact if_congr hmem rfl rfl

/-- How often the findings of a file come from one site. -/
lemma countP_reported (h : site ∈ sites tree) :
    (reported tree).countP (·.1 = site.1) = (functionNodes tree).countP (BeginsWithin site.2.2 ·) := by
  rw [reported]
  induction functionNodes tree with
  | nil => rfl
  | cons fn rest ih =>
    rw [flatMap_cons, countP_append, ih, countP_sitesWithin h, countP_cons, add_comm]
    simp

/-- **Costly work is reported once for each function around it.** A search on the functions of a file that succeeds walks
the file anew for each of them. Its findings come, function after function, from the costly work that begins within the
lines of the function. So what the walk finds at one address is reported as often as there are functions within whose
lines it begins: not at all outside of functions, and more than once in a function inside another one. -/
theorem reported_for_each_function {fs : Files} {root path : Path} {source : String} {m : ModuleUnit}
    {findings : List PerformanceFinding} (hread : fs.readText (root.join path) = .ok source)
    (houtline : Source.outline path source = .ok m) (hdetect : detect fs root m.functions = .ok findings) :
    ∃ tree, parse source = .ok tree ∧
      ((sites tree).map (·.1)).Nodup ∧
      (∀ found, costs false tree = .ok found → found = (sites tree).map (·.2)) ∧
      findings = (reported tree).map (fun site => findingAt path.toString site.2) ∧
      ∀ site ∈ sites tree,
        (reported tree).countP (·.1 = site.1) = (functionNodes tree).countP (BeginsWithin site.2.2 ·) := by
  cases hparse : parse source with
  | error e =>
    rw [Source.outline, hparse] at houtline
    cases houtline
  | ok tree =>
    rw [Source.outline, hparse] at houtline
    obtain rfl := Except.ok.inj houtline
    exact ⟨tree, rfl, nodup_sites tree, fun found hfound => (map_snd_sites hfound).symm,
      eq_of_detect hread hparse hdetect, fun site => countP_reported⟩

/-- A loop that opens files, in a function inside another one. -/
def nestedLoop : String :=
  "def f():\n def g():\n  for x in y:\n   open(x)\n"

/-- The files that hold the nested loop only. -/
def nestedLoopFile : Files :=
  ⟨[(["a.py"], .file (Text.encode nestedLoop) 0)], []⟩

/-- The one site of the nested loop is reported for both functions. -/
theorem reported_nestedLoop : ∃ m findings tree, Source.outline ⟨"", ["a.py"]⟩ nestedLoop = .ok m ∧
    detect nestedLoopFile ⟨"", []⟩ m.functions = .ok findings ∧ parse nestedLoop = .ok tree ∧ (sites tree).length = 1 ∧
    findings.map (fun f => (f.id, f.firstLine)) = [("a.py::io_in_loop:4", 4), ("a.py::io_in_loop:4", 4)] ∧
    ∀ site ∈ sites tree, (reported tree).countP (·.1 = site.1) = 2 := by
  have hread : nestedLoopFile.readText (Path.join ⟨"", []⟩ ⟨"", ["a.py"]⟩) = .ok nestedLoop := by cbv
  have hcheck : (parse nestedLoop).toOption.any (fun tree => (sites tree).length = 1 ∧
      (costs false tree).toOption.isSome ∧
      ((reported tree).map fun site => findingAt "a.py" site.2).map (fun f => (f.id, f.firstLine)) =
        [("a.py::io_in_loop:4", 4), ("a.py::io_in_loop:4", 4)] ∧
      ∀ site ∈ sites tree, (functionNodes tree).countP (BeginsWithin site.2.2 ·) = 2) = true := by decide +kernel
  obtain ⟨tree, htree, hcheck⟩ := (Option.any_eq_true _ _).mp hcheck
  obtain ⟨hone, hcosts, hfindings, htwo⟩ := of_decide_eq_true hcheck
  obtain ⟨found, hfound⟩ := Option.isSome_iff_exists.mp hcosts
  have hparse := Outcome.eq_ok_of_toOption htree
  have houtline : Source.outline ⟨"", ["a.py"]⟩ nestedLoop =
      .ok ⟨⟨"", ["a.py"]⟩, .python, Source.functionsOf ⟨"", ["a.py"]⟩ nestedLoop tree⟩ := by
    rw [Source.outline, hparse]
    rfl
  have hdetect := detect_functionsOf hread hparse (Outcome.eq_ok_of_toOption hfound)
  obtain ⟨tree', htree', -, -, -, hcount⟩ := reported_for_each_function hread houtline hdetect
  obtain rfl := Except.ok.inj (hparse.symm.trans htree')
  refine ⟨_, _, tree, houtline, hdetect, hparse, hone, ?_, fun site hsite => (hcount site hsite).trans (htwo site hsite)⟩
  rw [← hfindings]
  rfl

end CodeAudit.Performance
