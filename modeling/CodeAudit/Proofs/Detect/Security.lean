import CodeAudit.Detect.Security
import CodeAudit.Proofs.Script.Address

/-!
# Every hazardous call is found once

Which calls of a program pose a hazard can be said of each call by itself, wherever it stands: in a decorator, a
default, a comprehension, a formatted text, or inside another call. The scan finds exactly these calls, and no call is
found for two reasons.

## Main definitions

* `Security.Poses`, `Security.IsHazardous` — a call that poses a given hazard, or some hazard.

## Main results

* `Security.hazards_cases` — a node poses at most one.
* `Security.scan_finds_hazardous_calls` — the findings are the calls of the program that pose a hazard.
-/

namespace CodeAudit.Security

open CodeAudit.Script List

variable {n : Node} {hazard : Hazard}

/-! ## Hazardous calls -/

/-- A node is a call of a callee with arguments. -/
def IsCall (n callee : Node) (arguments : List Node) : Prop :=
  n.shape = .call ∧ n.children = callee :: arguments

/-- A node is an attribute of a plain name. -/
def IsAttribute (n : Node) (owner attr : String) : Prop :=
  n.shape = .attribute attr ∧ ∃ base, n.children = [base] ∧ base.shape = .name owner

/-- A node is a named argument that asks for a shell: its value is the constant for truth. -/
def AsksForShell (n : Node) : Prop :=
  n.part = .keyword ∧ n.shape = .keyword (some "shell") ∧ ∃ value, n.children = [value] ∧ value.shape = .constant .true

/-- **A call that poses a hazard**: it runs text as code, it has a command run by a shell, or it loads a document that
may make any object. -/
inductive Poses (n : Node) : Hazard → Prop
  | dynamicCode {callee : Node} {arguments : List Node} {name : String} (hcall : IsCall n callee arguments)
      (hcallee : callee.shape = .name name) (hname : name = "eval" ∨ name = "exec") : Poses n (.dynamicCode name)
  | shellCommand {callee : Node} {arguments : List Node} {attr : String} (hcall : IsCall n callee arguments)
      (hcallee : IsAttribute callee "subprocess" attr) (hattr : attr ∈ ["Popen", "call", "run"])
      (hshell : ∃ argument ∈ arguments, AsksForShell argument) : Poses n .shellCommand
  | unsafeLoad {callee : Node} {arguments : List Node} (hcall : IsCall n callee arguments)
      (hcallee : IsAttribute callee "yaml" "load") : Poses n .unsafeLoad

/-- A call that poses some hazard. -/
def IsHazardous (n : Node) : Prop :=
  ∃ hazard, Poses n hazard

lemma attributeCall?_eq_some_iff {owner attr : String} :
    attributeCall? n = some (owner, attr) ↔ IsAttribute n owner attr := by
  unfold attributeCall?
  split
  · rename_i part attr' extent part' id extent' children
    constructor
    · intro h
      obtain ⟨rfl, rfl⟩ := Prod.mk.inj (Option.some.inj h)
      exact ⟨rfl, _, rfl, rfl⟩
    · rintro ⟨hattr, base, hbase, hname⟩
      obtain rfl := singleton_inj.mp hbase
      rw [Shape.attribute.inj hattr, Shape.name.inj hname]
  · rename_i hno
    constructor
    · rintro ⟨⟩
    · rintro ⟨hattr, base, hbase, hname⟩
      obtain ⟨part, shape, extent, children⟩ := n
      obtain ⟨part', shape', extent', children'⟩ := base
      subst hattr hbase hname
      exact absurd rfl (hno _ _ _ _ _ _ _)

lemma asksForShell_iff : asksForShell n = true ↔ AsksForShell n := by
  unfold asksForShell
  split
  · exact iff_of_true rfl ⟨rfl, rfl, _, rfl, rfl⟩
  · rename_i hno
    refine iff_of_false Bool.false_ne_true ?_
    rintro ⟨hpart, hshape, value, hvalue, htrue⟩
    obtain ⟨part, shape, extent, children⟩ := n
    obtain ⟨part', shape', extent', children'⟩ := value
    subst hpart hshape hvalue htrue
    exact absurd rfl (hno _ _ _ _)

/-- The hazards of a call, from its callee and its arguments. -/
lemma mem_hazardsOf_iff {callee : Node} {arguments : List Node} : hazard ∈ hazardsOf callee arguments ↔
      (∃ name, hazard = .dynamicCode name ∧ callee.shape = .name name ∧ (name = "eval" ∨ name = "exec")) ∨
      (∃ attr, hazard = .shellCommand ∧ IsAttribute callee "subprocess" attr ∧ attr ∈ ["Popen", "call", "run"] ∧
        ∃ argument ∈ arguments, AsksForShell argument) ∨
      hazard = .unsafeLoad ∧ IsAttribute callee "yaml" "load" := by
  unfold hazardsOf
  split
  · rename_i name hname
    have hno : ∀ owner attr, ¬ IsAttribute callee owner attr := by
      rintro owner attr ⟨hattr, -⟩
      rw [hname] at hattr
      cases hattr
    simp only [hno, false_and, and_false, exists_false, or_false]
    split_ifs with heval
    · have heval : name = "eval" ∨ name = "exec" := by simpa using heval
      constructor
      · intro h
        exact ⟨name, mem_singleton.mp h, hname, heval⟩
      · rintro ⟨name', rfl, hname', -⟩
        rw [Shape.name.inj (hname.symm.trans hname')]
        exact mem_singleton_self _
    · have heval : ¬ (name = "eval" ∨ name = "exec") := by simpa using heval
      constructor
      · exact fun h => absurd h not_mem_nil
      · rintro ⟨name', -, hname', hcode⟩
        exact absurd (Shape.name.inj (hname.symm.trans hname') ▸ hcode) heval
  · rename_i hnone
    have hno : ∀ name, callee.shape ≠ .name name := fun name h => hnone name h
    simp only [hno, false_and, and_false, exists_false, false_or, ← attributeCall?_eq_some_iff, ← asksForShell_iff]
    split
    · rename_i attr hattr
      simp only [hattr, Option.some.injEq, Prod.mk.injEq, true_and, Bool.and_eq_true, decide_eq_true_eq,
        any_eq_true]
      split_ifs with hshell
      · simpa using fun _ => hshell
      · simpa using fun _ : hazard = .shellCommand => hshell
    · rename_i hattr
      simp [hattr]
    · rename_i hsubprocess hyaml
      have hsubprocess : ∀ attr, attributeCall? callee ≠ some ("subprocess", attr) := hsubprocess
      have hyaml : attributeCall? callee ≠ some ("yaml", "load") := hyaml
      simp [hsubprocess, hyaml]

/-- **The hazards of a node are those that it poses.** -/
lemma mem_hazards_iff : hazard ∈ hazards n ↔ Poses n hazard := by
  unfold hazards
  split
  · rename_i part extent callee arguments
    have hcall : ∀ {callee' arguments'}, IsCall (.mk part .call extent (callee :: arguments)) callee' arguments' →
        callee = callee' ∧ arguments = arguments' := fun h => cons.inj h.2
    rw [mem_hazardsOf_iff]
    constructor
    · rintro (⟨name, rfl, hname, heval⟩ | ⟨attr, rfl, hattr, hlisted, hshell⟩ | ⟨rfl, hload⟩)
      · exact .dynamicCode ⟨rfl, rfl⟩ hname heval
      · exact .shellCommand ⟨rfl, rfl⟩ hattr hlisted hshell
      · exact .unsafeLoad ⟨rfl, rfl⟩ hload
    · rintro (⟨h, hname, heval⟩ | ⟨h, hattr, hlisted, hshell⟩ | ⟨h, hload⟩)
      · obtain ⟨rfl, rfl⟩ := hcall h
        exact .inl ⟨_, rfl, hname, heval⟩
      · obtain ⟨rfl, rfl⟩ := hcall h
        exact .inr (.inl ⟨_, rfl, hattr, hlisted, hshell⟩)
      · obtain ⟨rfl, rfl⟩ := hcall h
        exact .inr (.inr ⟨rfl, hload⟩)
  · rename_i hno
    have hcall : ∀ {callee arguments}, ¬ IsCall n callee arguments := by
      rintro callee arguments ⟨hshape, hchildren⟩
      refine hno n.part n.extent callee arguments ?_
      rw [← hshape, ← hchildren]
      cases n
      rfl
    constructor
    · exact fun h => absurd h not_mem_nil
    · rintro (⟨h, -⟩ | ⟨h, -⟩ | ⟨h, -⟩)
      all_goals exact absurd h hcall

/-- **A node poses one hazard or none.** -/
lemma hazards_cases (n : Node) :
    hazards n = [] ∧ ¬ IsHazardous n ∨ ∃ hazard, hazards n = [hazard] ∧ Poses n hazard := by
  have hlength : (hazards n).length ≤ 1 := by
    unfold hazards
    split
    · unfold hazardsOf
      repeat' split
      all_goals simp
    · simp
  cases hhazards : hazards n with
  | nil =>
    refine .inl ⟨rfl, ?_⟩
    rintro ⟨hazard, hposes⟩
    have hmem := mem_hazards_iff.mpr hposes
    rw [hhazards] at hmem
    exact not_mem_nil hmem
  | cons hazard rest =>
    rw [hhazards, length_cons] at hlength
    obtain rfl : rest = [] := length_eq_zero_iff.mp (by omega)
    exact .inr ⟨hazard, rfl, mem_hazards_iff.mp (by simp [hhazards])⟩

instance : DecidablePred IsHazardous := fun n =>
  decidable_of_iff (hazards n ≠ []) (by
    rcases hazards_cases n with ⟨hnone, hno⟩ | ⟨hazard, hone, hposes⟩
    · simp [hnone, hno]
    · exact iff_of_true (by simp [hone]) ⟨hazard, hposes⟩)

/-! ## The scan -/

/-- The finding on a node, if it poses a hazard. -/
def finding? (file : String) (n : Node) : Option SecurityFinding :=
  (hazards n).head?.map (findingAt file n)

lemma isSome_finding? (file : String) (n : Node) : (finding? file n).isSome = decide (IsHazardous n) := by
  rcases hazards_cases n with ⟨hnone, hno⟩ | ⟨hazard, hone, hposes⟩
  · simp [finding?, hnone, hno]
  · have hhazardous : IsHazardous n := ⟨hazard, hposes⟩
    simp [finding?, hone, hhazardous]

/-- A finding tells the hazard and the lines of its node. -/
lemma of_finding? {file : String} {f : SecurityFinding} (h : finding? file n = some f) :
    ∃ hazard, Poses n hazard ∧ f.message = hazard.message ∧ f.file = file ∧ f.firstLine = n.firstLine ∧
      f.lastLine = n.lastLine := by
  obtain ⟨hazard, hhead, rfl⟩ := Option.map_eq_some_iff.mp h
  exact ⟨hazard, mem_hazards_iff.mp (mem_of_mem_head? hhead), rfl, rfl, rfl, rfl⟩

/-- The findings on a tree come node by node. -/
lemma scanTree_eq (file : String) (tree : Node) : scanTree file tree = tree.preorder.filterMap (finding? file) := by
  rw [scanTree, filterMap_eq_flatMap_toList]
  refine flatMap_congr fun n _ => ?_
  rcases hazards_cases n with ⟨hnone, -⟩ | ⟨hazard, hone, -⟩
  · simp [finding?, hnone]
  · simp [finding?, hone]

/-- A text on which there is a finding is a program. -/
lemma exists_parse_of_scanScript {path : Path} {source : String} (h : scanScript path source ≠ []) :
    ∃ tree, parse source = .ok tree := by
  cases hparse : parse source with
  | ok tree => exact ⟨tree, rfl⟩
  | error e => exact absurd (by rw [scanScript, hparse]) h

/-- **The findings are the hazardous calls of the program**, each of them once. There is one for each address at which
a call poses a hazard, in lexicographic order of the addresses, which is the order of a depth-first walk. Each tells the
hazard and the first and last line of its call, and taken without their order the calls are those that a breadth-first
walk meets. -/
theorem scan_finds_hazardous_calls (path : Path) {source : String} {tree : Node} (h : parse source = .ok tree) :
    ∃ (places : List (List ℕ)) (calls : List Node), places.Pairwise (· < ·) ∧
      (∀ p, p ∈ places ↔ ∃ call, tree.at? p = some call ∧ IsHazardous call) ∧
      List.Forall₂ (fun p call => tree.at? p = some call) places calls ∧
      List.Forall₂ (fun call f => ∃ hazard, Poses call hazard ∧ f.message = hazard.message ∧ f.file = path.toString ∧
        f.firstLine = call.firstLine ∧ f.lastLine = call.lastLine) calls (scanScript path source) ∧
      calls.Perm (tree.levelOrder.filter IsHazardous) := by
  have hcalls : tree.addresses.filterMap (fun p => (tree.at? p).filter IsHazardous) =
      tree.preorder.filter IsHazardous := by
    rw [← tree.filterMap_at?_addresses, List.filter_filterMap]
  have hscan : scanScript path source = tree.preorder.filterMap (finding? path.toString) := by
    simp only [scanScript, h, scanTree_eq]
  refine ⟨tree.addresses.filter fun p => ((tree.at? p).filter IsHazardous).isSome, tree.preorder.filter IsHazardous,
    tree.pairwise_addresses.filter _, fun p => ?_, ?_, ?_, (tree.levelOrder_perm.filter _).symm⟩
  · simp only [List.mem_filter, Node.mem_addresses_iff, Option.isSome_iff_exists, Option.filter_eq_some_iff,
      decide_eq_true_eq]
    exact ⟨And.right, fun hcall => ⟨⟨_, hcall.choose_spec.1⟩, hcall⟩⟩
  · rw [← hcalls]
    refine (Sequence.forall₂_filterMap _ _).imp fun p call hcall => ?_
    exact (Option.filter_eq_some_iff.mp hcall).1
  · have hfindings := Sequence.forall₂_filterMap (finding? path.toString) tree.preorder
    simp only [isSome_finding?] at hfindings
    rw [hscan]
    exact hfindings.imp fun call f hf => of_finding? hf

/-- Hazardous calls in a decorator, a default, a formatted text and a comprehension. -/
def scattered : String :=
  "@f(eval(a))\ndef g(b=exec(c)):\n return f'{eval(d)}', [yaml.load(e) for e in subprocess.run(h,\n  shell=True)]\n"

/-- All five are found; the decorator comes behind the body. -/
theorem scan_finds_scattered : ∃ tree, parse scattered = .ok tree ∧
    ((scanScript ⟨"", ["a.py"]⟩ scattered).map fun f => (f.firstLine, f.lastLine)) =
      [(2, 2), (3, 3), (3, 3), (3, 4), (1, 1)] ∧
    (∃ places : List (List ℕ), places.length = 5 ∧
      ∀ p, p ∈ places ↔ ∃ call, tree.at? p = some call ∧ IsHazardous call) ∧
    (tree.levelOrder.filter IsHazardous).length = 5 := by
  have hlines : ((scanScript ⟨"", ["a.py"]⟩ scattered).map fun f => (f.firstLine, f.lastLine)) =
      [(2, 2), (3, 3), (3, 3), (3, 4), (1, 1)] := by decide +kernel
  have hfive : (scanScript ⟨"", ["a.py"]⟩ scattered).length = 5 := by
    rw [← List.length_map, hlines]
    rfl
  obtain ⟨tree, hparse⟩ := exists_parse_of_scanScript (List.ne_nil_of_length_eq_add_one hfive)
  obtain ⟨places, calls, -, hplaces, hat, hcalls, hwalk⟩ := scan_finds_hazardous_calls ⟨"", ["a.py"]⟩ hparse
  refine ⟨tree, hparse, hlines, ⟨places, ?_, hplaces⟩, ?_⟩
  · rw [hat.length_eq, hcalls.length_eq, hfive]
  · rw [← hwalk.length_eq, hcalls.length_eq, hfive]

end CodeAudit.Security
