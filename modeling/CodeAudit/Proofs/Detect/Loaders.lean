import CodeAudit.Proofs.Detect.Security
import CodeAudit.Proofs.Outcome

/-!
# Loads with a safe loader

A load of a document is harmless if it is given a loader that makes plain values only. The scan does not ask for the
loader: it reports every load of a program. So the loads without a safe loader are what it reports exactly if the
program has no others.

## Main definitions

* `Security.PassesSafeLoader` — a call that is given a safe loader.
* `Security.TellsLoads` — findings on the loads of a kind.

## Main results

* `Security.unsafe_loads_reported_iff` — all loads are reported, with and without a safe loader.
-/

namespace CodeAudit.Security

open CodeAudit.Script

variable {n : Node} {file : String}

/-- The loaders that are given to a call: its second positional argument, and what is passed by their name. -/
def loaders (n : Node) : List Node :=
  (n.parts .argument)[1]?.toList ++
    ((n.parts .keyword).filter (·.shape = .keyword (some "Loader"))).flatMap Node.children

/-- **A call that is given a loader that makes plain values only**: one of two names, or an attribute so named. -/
def PassesSafeLoader (n : Node) : Prop :=
  ∃ loader ∈ loaders n, ∃ name ∈ ["SafeLoader", "CSafeLoader"], loader.shape = .name name ∨
    loader.shape = .attribute name

/-- What is said of a load is said of nothing else. -/
lemma message_eq_unsafeLoad_iff {hazard : Hazard} :
    hazard.message = Hazard.unsafeLoad.message ↔ hazard = .unsafeLoad := by
  cases hazard with
  | dynamicCode name =>
    refine iff_of_false (fun h => ?_) (by simp)
    have hfirst := congrArg (·.toList.head?) h
    simp [Hazard.message] at hfirst
  | shellCommand => decide
  | unsafeLoad => exact iff_of_true rfl rfl

/-- The finding on a node, if it says that a document is loaded, is that on a load. -/
lemma filter_finding?_eq_some_iff {f : SecurityFinding} :
    (finding? file n).filter (·.message = Hazard.unsafeLoad.message) = some f ↔
      Poses n .unsafeLoad ∧ findingAt file n .unsafeLoad = f := by
  rw [← mem_hazards_iff]
  rcases hazards_cases n with ⟨hnone, -⟩ | ⟨hazard, hone, -⟩
  · simp [finding?, hnone]
  · simp only [finding?, hone, List.head?_cons, Option.map_some, Option.filter_eq_some_iff, Option.some.injEq,
      decide_eq_true_eq, List.mem_singleton]
    constructor
    · rintro ⟨rfl, hmessage⟩
      obtain rfl := message_eq_unsafeLoad_iff.mp hmessage
      exact ⟨rfl, rfl⟩
    · rintro ⟨rfl, rfl⟩
      exact ⟨rfl, rfl⟩

/-- **Findings on the loads of a kind**: one for each address of such a load, in the order of the addresses. -/
def TellsLoads (file : String) (tree : Node) (Kind : Node → Prop) (findings : List SecurityFinding) : Prop :=
  ∃ places : List (List ℕ), places.Pairwise (· < ·) ∧
    (∀ p, p ∈ places ↔ ∃ call, tree.at? p = some call ∧ Poses call .unsafeLoad ∧ Kind call) ∧
    List.Forall₂ (fun p f => ∃ call, tree.at? p = some call ∧ findingAt file call .unsafeLoad = f) places findings

/-- All loads are reported. -/
lemma tellsLoads_scanTree (file : String) (tree : Node) : TellsLoads file tree (fun _ => True)
    ((scanTree file tree).filter (·.message = Hazard.unsafeLoad.message)) := by
  rw [scanTree_eq, List.filter_filterMap, ← tree.filterMap_at?_addresses, List.filterMap_filterMap]
  refine ⟨_, tree.pairwise_addresses.filter _, fun p => ?_, (Sequence.forall₂_filterMap _ _).imp fun p f hf => ?_⟩
  · simp only [List.mem_filter, Node.mem_addresses_iff, Option.isSome_iff_exists, Option.bind_eq_some_iff,
      filter_finding?_eq_some_iff, and_true]
    constructor
    · rintro ⟨-, f, call, hcall, hposes, -⟩
      exact ⟨call, hcall, hposes⟩
    · rintro ⟨call, hcall, hposes⟩
      exact ⟨⟨call, hcall⟩, _, call, hcall, hposes, rfl⟩
  · obtain ⟨call, hcall, hf⟩ := Option.bind_eq_some_iff.mp hf
    exact ⟨call, hcall, (filter_finding?_eq_some_iff.mp hf).2⟩

/-- **Every load of a program is reported**, whatever its loader. So the loads without a safe loader are those that are
reported exactly if no load of the program is given one. -/
theorem unsafe_loads_reported_iff (path : Path) {source : String} {tree : Node} (h : parse source = .ok tree) :
    TellsLoads path.toString tree (fun _ => True)
      ((scanScript path source).filter (·.message = Hazard.unsafeLoad.message)) ∧
    (TellsLoads path.toString tree (¬ PassesSafeLoader ·)
        ((scanScript path source).filter (·.message = Hazard.unsafeLoad.message)) ↔
      ∀ p call, tree.at? p = some call → Poses call .unsafeLoad → ¬ PassesSafeLoader call) := by
  have hall : TellsLoads path.toString tree (fun _ => True)
      ((scanScript path source).filter (·.message = Hazard.unsafeLoad.message)) := by
    simpa only [scanScript, h] using tellsLoads_scanTree path.toString tree
  refine ⟨hall, ?_⟩
  obtain ⟨places, hsorted, hplaces, htold⟩ := hall
  constructor
  · rintro ⟨places', hsorted', hplaces', htold'⟩ p call hcall hposes
    -- there are as many findings as loads, so no load is left out
    have hsub : places' ⊆ places := by
      intro q hq
      obtain ⟨other, hother, hload, -⟩ := (hplaces' q).mp hq
      exact (hplaces q).mpr ⟨other, hother, hload, trivial⟩
    have hlength : places.length ≤ places'.length := (htold.length_eq.trans htold'.length_eq.symm).le
    have hnodup : places'.Nodup := hsorted'.imp fun h => h.ne
    have hperm := (hnodup.subperm hsub).perm_of_length_le hlength
    obtain ⟨other, hother, -, hposed⟩ :=
      (hplaces' p).mp (hperm.mem_iff.mpr ((hplaces p).mpr ⟨call, hcall, hposes, trivial⟩))
    rwa [Option.some.inj (hcall.symm.trans hother)]
  · intro hposed
    refine ⟨places, hsorted, fun p => (hplaces p).trans ?_, htold⟩
    exact exists_congr fun call => and_congr_right fun hcall => and_congr_right fun hposes =>
      iff_of_true trivial (hposed p call hcall hposes)

/-- A document is loaded by a safe loader. -/
def safely : String := "yaml.load(f, Loader=yaml.SafeLoader)\n"

/-- The load is reported all the same. -/
theorem unsafe_loads_reported_safely : ∃ tree, parse safely = .ok tree ∧
    ¬ TellsLoads "a.py" tree (¬ PassesSafeLoader ·)
      ((scanScript ⟨"", ["a.py"]⟩ safely).filter (·.message = Hazard.unsafeLoad.message)) := by
  have hload : ((parse safely).toOption.bind (·.at? [0, 0])).map (fun n => (hazards n, (loaders n).map Node.shape)) =
      some ([.unsafeLoad], [.attribute "SafeLoader"]) := by decide +kernel
  obtain ⟨call, hcall, hload⟩ := Option.map_eq_some_iff.mp hload
  obtain ⟨tree, htree, hcall⟩ := Option.bind_eq_some_iff.mp hcall
  have hparse := Outcome.eq_ok_of_toOption htree
  obtain ⟨hhazards, hshapes⟩ := Prod.mk.inj hload
  obtain ⟨loader, hloader, hshape⟩ := List.mem_map.mp (hshapes ▸ List.mem_singleton_self (Shape.attribute "SafeLoader"))
  refine ⟨tree, hparse, fun htells => ?_⟩
  refine (unsafe_loads_reported_iff ⟨"", ["a.py"]⟩ hparse).2.mp htells [0, 0] call hcall ?_ ?_
  · exact mem_hazards_iff.mp (hhazards ▸ List.mem_singleton_self _)
  · exact ⟨loader, hloader, "SafeLoader", by simp, .inr hshape⟩

end CodeAudit.Security
