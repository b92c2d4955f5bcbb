import CodeAudit.Proofs.Detect.Performance
import CodeAudit.Proofs.Script.Address
import CodeAudit.Proofs.Text.Case

/-!
# Costly work below loops

A walk through a tree carries the number of loops that it is in, and what it has found. Whether a node stands inside a
loop can be told without a walk: some node above it is a loop. This module says that the two agree. A walk that
finishes has found all costly work below loops and nothing else, in the order of the addresses, and is in no loop.

## Main definitions

* `Performance.Costs` — the costly work that a node does by itself.
* `Performance.InLoop` — an address below a loop.

## Main results

* `Performance.found_eq` — what is found in a tree, address by address.
* `Performance.walk_finds_work_below_loops` — a walk finds exactly the costly work below loops.
-/

namespace CodeAudit.Performance

open CodeAudit.Script List

variable {kind : Kind} {n c : Node} {i : ℕ}

/-! ## Costly nodes -/

/-- The functions that send requests, each with the names before its last point. -/
def requestFunctions : List (String × String) :=
  [("requests", "get"), ("requests", "post"), ("requests", "put"), ("requests", "delete"), ("requests", "head"),
    ("requests", "patch")]

/-- The functions that use files, each with the names before its last point. -/
def fileFunctions : List (String × String) :=
  [("", "open"), ("os", "remove"), ("os", "rename"), ("os", "replace"), ("os", "listdir"), ("shutil", "copy"),
    ("shutil", "copy2"), ("shutil", "copyfile"), ("shutil", "move"), ("pathlib.Path", "read_text"),
    ("pathlib.Path", "write_text")]

/-- A function that reads or writes a file, by its own name and by a name before it. -/
def OfPath (call : String × String) : Prop :=
  (call.2 = "read_text" ∨ call.2 = "write_text") ∧ "Path".toList <:+: call.1.toList

/-- A node is a call, and this is what it calls. -/
def Calls (n : Node) (call : String × String) : Prop :=
  ∃ callee arguments, n.shape = .call ∧ n.children = callee :: arguments ∧ target callee = .ok (some call)

/-- **The costly work that a node does by itself.** -/
inductive Costs (n : Node) : Kind → Prop
  | concatenation (h : n.shape = .augAssign "+") : Costs n .concatenation
  | request {call : String × String} (hcall : Calls n call) (h : call ∈ requestFunctions) : Costs n .request
  | fileAccess {call : String × String} (hcall : Calls n call) (hother : call ∉ requestFunctions)
      (h : call ∈ fileFunctions ∨ OfPath call) : Costs n .fileAccess

lemma isRequest_iff (call : String × String) : isRequest call = true ↔ call ∈ requestFunctions := by
  obtain ⟨owner, name⟩ := call
  simp only [isRequest, requestFunctions, Bool.and_eq_true, beq_iff_eq, decide_eq_true_eq, mem_cons,
    Prod.mk.injEq, not_mem_nil, or_false]
  tauto

lemma isFileAccess_iff (call : String × String) :
    isFileAccess call = true ↔ call ∈ fileFunctions ∨ OfPath call := by
  obtain ⟨owner, name⟩ := call
  -- none of the three owners that are told apart has the word in it
  have hwords : ∀ short ∈ ["", "os", "shutil"], ¬ "Path".toList <:+: short.toList := by decide
  unfold isFileAccess
  split
  · rename_i howner
    obtain rfl : owner = "" := howner
    have hno : ¬ OfPath ("", name) := fun h => hwords "" (by simp) h.2
    simp [fileFunctions, hno]
  · rename_i howner
    obtain rfl : owner = "os" := howner
    have hno : ¬ OfPath ("os", name) := fun h => hwords "os" (by simp) h.2
    simp [fileFunctions, hno]
  · rename_i howner
    obtain rfl : owner = "shutil" := howner
    have hno : ¬ OfPath ("shutil", name) := fun h => hwords "shutil" (by simp) h.2
    simp [fileFunctions, hno]
  · rename_i hempty hos hshutil
    change owner ≠ "" at hempty
    change owner ≠ "os" at hos
    change owner ≠ "shutil" at hshutil
    simp only [Bool.and_eq_true, Bool.or_eq_true, beq_iff_eq, Text.contains_iff]
    constructor
    · exact .inr
    · rintro (hlisted | hpath)
      · have hword : "Path".toList <:+: "pathlib.Path".toList := by decide
        simp only [fileFunctions, mem_cons, Prod.mk.injEq, not_mem_nil, or_false, hempty, hos, hshutil,
          false_and, false_or] at hlisted
        rcases hlisted with ⟨rfl, rfl⟩ | ⟨rfl, rfl⟩
        · exact ⟨.inl rfl, hword⟩
        · exact ⟨.inr rfl, hword⟩
      · exact hpath

/-- What a call costs is told by what it calls. -/
lemma costs_call_iff {part : Script.Part} {extent : Extent} {callee : Node} {arguments : List Node} :
    Costs (.mk part .call extent (callee :: arguments)) kind ↔
      ∃ call, target callee = .ok (some call) ∧
        (if isRequest call then some .request else if isFileAccess call then some .fileAccess else none) =
          some kind := by
  have hcalls : ∀ call, Calls (.mk part .call extent (callee :: arguments)) call ↔ target callee = .ok (some call) := by
    intro call
    constructor
    · rintro ⟨callee', arguments', -, hchildren, htarget⟩
      obtain ⟨rfl, rfl⟩ := cons.inj hchildren
      exact htarget
    · exact fun htarget => ⟨callee, arguments, rfl, rfl, htarget⟩
  constructor
  · rintro (h | ⟨hcall, h⟩ | ⟨hcall, hother, h⟩)
    · cases h
    · exact ⟨_, (hcalls _).mp hcall, by rw [if_pos ((isRequest_iff _).mpr h)]⟩
    · exact ⟨_, (hcalls _).mp hcall, by
        rw [if_neg (mt (isRequest_iff _).mp hother), if_pos ((isFileAccess_iff _).mpr h)]⟩
  · rintro ⟨call, htarget, hkind⟩
    split_ifs at hkind with hrequest hfile
    · obtain rfl := Option.some.inj hkind
      exact .request ((hcalls call).mpr htarget) ((isRequest_iff call).mp hrequest)
    · obtain rfl := Option.some.inj hkind
      exact .fileAccess ((hcalls call).mpr htarget) (mt (isRequest_iff call).mpr hrequest)
        ((isFileAccess_iff call).mp hfile)

/-- **What is asked of a node inside a loop tells what it costs.** -/
lemma costOf_eq_ok_iff (n : Node) (kind : Kind) : costOf n = .ok (some kind) ↔ Costs n kind := by
  unfold costOf
  split
  · rename_i part extent callee arguments
    rw [costs_call_iff]
    cases target callee with
    | error e => simp [Except.map]
    | ok call => cases call <;> simp [Except.map]
  · rename_i part extent children
    constructor
    · intro h
      obtain rfl := Option.some.inj (Except.ok.inj h)
      exact .concatenation rfl
    · rintro (h | ⟨⟨_, _, hcall, -⟩, -⟩ | ⟨⟨_, _, hcall, -⟩, -⟩)
      · rfl
      · cases hcall
      · cases hcall
  · rename_i hcall hassign
    have hnot : ∀ call, ¬ Calls n call := by
      rintro call ⟨callee, arguments, hshape, hchildren, -⟩
      refine hcall n.part n.extent callee arguments ?_
      rw [← hshape, ← hchildren]
      cases n
      rfl
    constructor
    · rintro ⟨⟩
    · rintro (h | ⟨hcalls, -⟩ | ⟨hcalls, -⟩)
      · refine absurd ?_ (hassign n.part n.extent n.children)
        rw [← h]
        cases n
        rfl
      · exact absurd hcalls (hnot _)
      · exact absurd hcalls (hnot _)

/-! ## Addresses below loops -/

/-- **An address below a loop**: some proper beginning of it leads to a loop. -/
def InLoop (n : Node) (p : List ℕ) : Prop :=
  ∃ q, q <+: p ∧ q ≠ p ∧ ∃ loop, n.at? q = some loop ∧ isLoop loop = true

instance (n : Node) (p : List ℕ) : Decidable (InLoop n p) :=
  decidable_of_iff (∃ q ∈ p.inits, q ≠ p ∧ (n.at? q).any isLoop = true) (by
    simp only [InLoop, mem_inits, Option.any_eq_true])

lemma not_inLoop_nil (n : Node) : ¬ InLoop n [] := by
  rintro ⟨q, hq, hne, -⟩
  exact hne (prefix_nil.mp hq)

/-- An address behind a child is below a loop exactly if the tree is a loop, or the rest of it is below a loop of the
child. -/
lemma inLoop_cons_iff (h : n.children[i]? = some c) (p : List ℕ) :
    InLoop n (i :: p) ↔ isLoop n = true ∨ InLoop c p := by
  constructor
  · rintro ⟨q, hq, hne, loop, hloop, hisLoop⟩
    cases q with
    | nil =>
      obtain rfl := Option.some.inj hloop
      exact .inl hisLoop
    | cons j q =>
      obtain ⟨rfl, hq⟩ := cons_prefix_cons.mp hq
      refine .inr ⟨q, (cons_prefix_cons.mp hq).2, fun heq => hne (by rw [heq]), loop, ?_, hisLoop⟩
      rwa [Node.at?_cons_of_getElem? h] at hloop
  · rintro (hisLoop | ⟨q, hq, hne, loop, hloop, hisLoop⟩)
    · exact ⟨[], nil_prefix, by simp, n, rfl, hisLoop⟩
    · refine ⟨i :: q, cons_prefix_cons.mpr ⟨rfl, hq⟩, by simpa using hne, loop, ?_, hisLoop⟩
      rwa [Node.at?_cons_of_getElem? h]

/-! ## What a walk finds -/

/-- What a walk finds at an address; `inLoop` says whether the tree stands inside a loop. -/
def foundAt (inLoop : Bool) (n : Node) (p : List ℕ) : Option (Kind × Node) :=
  if inLoop = true ∨ InLoop n p then (n.at? p).bind fun m => ((costOf m).toOption.bind id).map (·, m) else none

lemma foundAt_cons (h : n.children[i]? = some c) (inLoop : Bool) (p : List ℕ) :
    foundAt inLoop n (i :: p) = foundAt (inLoop || isLoop n) c p := by
  simp only [foundAt, Node.at?_cons_of_getElem? h, Bool.or_eq_true, or_assoc, inLoop_cons_iff h]

lemma foundAt_eq_some_iff {m : Node} {p : List ℕ} :
    foundAt false n p = some (kind, m) ↔ InLoop n p ∧ n.at? p = some m ∧ Costs m kind := by
  have hcost : ∀ m', ((costOf m').toOption.bind id).map (·, m') = some (kind, m) ↔ m' = m ∧ Costs m kind := by
    intro m'
    rw [← costOf_eq_ok_iff]
    constructor
    · intro h
      obtain ⟨kind', hkind, heq⟩ := Option.map_eq_some_iff.mp h
      obtain ⟨rfl, rfl⟩ := Prod.mk.inj heq
      cases hcost : costOf m' <;> simp_all [Except.toOption]
    · rintro ⟨rfl, h⟩
      rw [h]
      rfl
  unfold foundAt
  by_cases hloop : InLoop n p
  · rw [if_pos (.inr hloop), Option.bind_eq_some_iff]
    simp only [hcost]
    constructor
    · rintro ⟨_, hm, rfl, hcosts⟩
      exact ⟨hloop, hm, hcosts⟩
    · rintro ⟨-, hm, hcosts⟩
      exact ⟨m, hm, rfl, hcosts⟩
  · simp [hloop]

/-- **What is found in a tree, address by address.**

**Proof sketch.** Induction on the tree. What the root costs is asked only inside a loop, and the root is not below a
loop of its own. The trees below it are inside a loop if it is or if the root is one, and an address behind a child is
below a loop for one of the same two reasons. -/
lemma found_eq {inLoop : Bool} {found : List (Kind × Node)} (h : costs inLoop n = .ok found) :
    found = n.addresses.filterMap (foundAt inLoop n) := by
  induction n using Node.induction_children generalizing inLoop found with
  | step n ih =>
    rw [costs_eq] at h
    obtain ⟨own, hown, h⟩ := Outcome.bind_eq_ok.mp h
    obtain ⟨inner, hinner, h⟩ := Outcome.bind_eq_ok.mp h
    obtain rfl := Except.ok.inj h
    have hroot : (foundAt inLoop n []).toList = own.toList.map (·, n) := by
      cases inLoop with
      | false =>
        obtain rfl := Except.ok.inj hown
        simp [foundAt, not_inLoop_nil]
      | true =>
        rw [if_pos rfl] at hown
        simp only [foundAt, true_or, if_true, Node.at?_nil, Option.bind_some, hown]
        cases own <;> rfl
    have hbelow : inner = n.children.map fun c => c.addresses.filterMap (foundAt (inLoop || isLoop n) c) := by
      have hrow := Outcome.map_eq_of_mapM hinner (k := id)
        (l := fun c => c.addresses.filterMap (foundAt (inLoop || isLoop n) c)) fun c hc found hfound => ih c hc hfound
      rwa [map_id] at hrow
    rw [Node.filterMap_addresses fun c i hc p => foundAt_cons hc inLoop p, hroot, hbelow, flatMap]

/-- **A walk finds exactly the costly work below loops.** A walk that finishes is in no loop at its end. Its findings
come one for each address below a loop at which a node does costly work by itself, in lexicographic order of the
addresses, which is the order of a depth-first walk; each tells the kind of the work and the lines of the node. -/
theorem walk_finds_work_below_loops (file : String) {tree : Node} {w : Walk} (h : Walk.visit {} tree = .ok w) :
    w.depth = 0 ∧
      ∃ places : List (List ℕ), places.Pairwise (· < ·) ∧
        (∀ p, p ∈ places ↔ InLoop tree p ∧ ∃ n kind, tree.at? p = some n ∧ Costs n kind) ∧
        List.Forall₂ (fun p f => ∃ n kind, tree.at? p = some n ∧ Costs n kind ∧ f.kind = kind.tag ∧
          f.firstLine = n.firstLine ∧ f.lastLine = n.lastLine) places (w.found.map (findingAt file)) := by
  have hgoesOn := goesOn tree {}
  rw [← (goesOn tree).costs_eq, h] at hgoesOn
  obtain ⟨found, hfound, rfl⟩ : ∃ found, costs false tree = .ok found ∧ w = { found } := by
    change Except.ok w = (costs false tree).map _ at hgoesOn
    cases hcosts : costs false tree with
    | error e =>
      rw [hcosts] at hgoesOn
      cases hgoesOn
    | ok found =>
      rw [hcosts] at hgoesOn
      exact ⟨found, rfl, Except.ok.inj hgoesOn⟩
  refine ⟨rfl, tree.addresses.filter fun p => (foundAt false tree p).isSome, tree.pairwise_addresses.filter _, ?_, ?_⟩
  · intro p
    simp only [List.mem_filter, Node.mem_addresses_iff, Option.isSome_iff_exists, Prod.exists, foundAt_eq_some_iff]
    constructor
    · rintro ⟨-, kind, n, hloop, hn, hcosts⟩
      exact ⟨hloop, n, kind, hn, hcosts⟩
    · rintro ⟨hloop, n, kind, hn, hcosts⟩
      exact ⟨⟨n, hn⟩, kind, n, hloop, hn, hcosts⟩
  · rw [List.forall₂_map_right_iff, found_eq hfound]
    refine (Sequence.forall₂_filterMap (foundAt false tree) tree.addresses).imp fun p cost hcost => ?_
    obtain ⟨-, hn, hcosts⟩ := foundAt_eq_some_iff.mp hcost
    exact ⟨cost.2, cost.1, hn, hcosts, rfl, rfl, rfl⟩

/-- A loop over a file that holds another loop, with the same work behind them. -/
def loopOverFile : String :=
  "for x in open(p):\n s += x\n while x: requests.get(x)\nopen(p)\ns += x\n"

/-- The three costly nodes below the loops are found, and the two behind them are not. -/
theorem walk_finds_loopOverFile : ∃ tree w, parse loopOverFile = .ok tree ∧ Walk.visit {} tree = .ok w ∧ w.depth = 0 ∧
    ((w.found.map (findingAt "a.py")).map fun f => (f.kind, f.firstLine)) =
      [("io_in_loop", 1), ("string_concat_in_loop", 2), ("requests_in_loop", 3)] ∧
    ∃ places : List (List ℕ), places.length = 3 ∧
      ∀ p, p ∈ places ↔ InLoop tree p ∧ ∃ n kind, tree.at? p = some n ∧ Costs n kind := by
  have hcheck : (((parse loopOverFile).toOption.bind fun tree => (Walk.visit {} tree).toOption).map fun w =>
      (w.found.map (findingAt "a.py")).map fun f => (f.kind, f.firstLine)) =
        some [("io_in_loop", 1), ("string_concat_in_loop", 2), ("requests_in_loop", 3)] := by decide +kernel
  obtain ⟨w, hw, hfound⟩ := Option.map_eq_some_iff.mp hcheck
  obtain ⟨tree, htree, hw⟩ := Option.bind_eq_some_iff.mp hw
  have hparse := Outcome.eq_ok_of_toOption htree
  have hvisit := Outcome.eq_ok_of_toOption hw
  obtain ⟨hdepth, places, -, hplaces, hfindings⟩ := walk_finds_work_below_loops "a.py" hvisit
  refine ⟨tree, w, hparse, hvisit, hdepth, hfound, places, ?_, hplaces⟩
  rw [hfindings.length_eq, ← List.length_map (f := fun f : PerformanceFinding => (f.kind, f.firstLine)), hfound]
  rfl

end CodeAudit.Performance
