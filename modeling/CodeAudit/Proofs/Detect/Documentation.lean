import CodeAudit.Detect.Documentation
import CodeAudit.Proofs.Script.Tree
import CodeAudit.Proofs.Text.Case
import CodeAudit.Source.Outline

/-!
# Functions without documentation

Two passes look at the functions of a script. One lists all of them with their documentation, the other one tells
which are not documented. They agree on every program, and no function of the tree is passed over.

## Main definitions

* `DocumentationFinding.subject?` — the function that a finding names.
* `Documentation.lacks` — a node that defines a function without documentation.

## Main results

* `Documentation.filter_functionUnit`, `Documentation.filter_filterMap_inspect?` — what either pass
  tells of a row of nodes.
* `Documentation.undocumented_functions_agree` — the findings on functions are the functions without
  documentation.
-/

namespace CodeAudit

open Script

/-- What stands before the name in a finding on a function. -/
def Documentation.functionLead : String := "Missing function/method docstring: "

/-- The function that a finding names. -/
def DocumentationFinding.subject? (f : DocumentationFinding) : Option String :=
  (Text.dropLeading? Documentation.functionLead.toList f.message.toList).map String.ofList

/-- The documentation of a function is missing or empty. -/
def FunctionUnit.IsUndocumented (fn : FunctionUnit) : Prop :=
  fn.doc = none ∨ fn.doc = some ""

instance : DecidablePred FunctionUnit.IsUndocumented := fun fn =>
  inferInstanceAs (Decidable (fn.doc = none ∨ fn.doc = some ""))

namespace Documentation

/-- A node that defines a function without documentation. -/
def lacks (n : Node) : Bool :=
  n.isFunction && !n.isDocumented

/-! ## The functions -/

/-- The documentation of a function is missing or empty exactly if its node counts as not documented. -/
lemma isUndocumented_functionUnit {path : Path} {lines : List (List Char)} {n : Node} :
    (Source.functionUnit path lines n).IsUndocumented ↔ n.isDocumented = false := by
  unfold FunctionUnit.IsUndocumented Node.isDocumented
  change n.docstring? = none ∨ n.docstring? = some "" ↔ _
  cases n.docstring? with
  | none => simp
  | some doc => simp

/-- The functions of a row of nodes that are not documented. -/
lemma filter_functionUnit (path : Path) (lines : List (List Char)) (nodes : List Node) :
    (((nodes.filter Node.isFunction).map (Source.functionUnit path lines)).filter fun fn => fn.IsUndocumented) =
      (nodes.filter lacks).map (Source.functionUnit path lines) := by
  rw [List.filter_map, List.filter_filter]
  congr 1
  apply List.filter_congr
  intro n _
  simp only [Function.comp_apply, isUndocumented_functionUnit, lacks, Bool.and_comm]
  cases n.isDocumented <;> simp

/-! ## The findings -/

/-- A node gives a finding on a function exactly if it defines one without documentation. -/
lemma filter_inspect? (file : String) (n : Node) :
    (inspect? file n).filter (·.kind = "function") =
      if lacks n then some (definitionFinding file "function" "function/method" n) else none := by
  unfold inspect? lacks Node.isFunction
  cases n.isDocumented with
  | true => simp
  | false => cases n.shape <;> simp [definitionFinding]

/-- The findings on functions of a row of nodes. -/
lemma filter_filterMap_inspect? (file : String) (nodes : List Node) :
    ((nodes.filterMap (inspect? file)).filter fun f => f.kind = "function") =
      (nodes.filter lacks).map (definitionFinding file "function" "function/method") := by
  rw [List.filter_filterMap]
  simp only [filter_inspect?]
  induction nodes with
  | nil => rfl
  | cons n nodes ih => cases hn : lacks n <;> simp [hn, ih]

/-- The findings on functions of a program. -/
lemma filter_detect (path : Path) {source : String} {tree : Node} (h : parse source = .ok tree) :
    ((detect path source).filter fun f => f.kind = "function") =
      (tree.levelOrder.filter lacks).map (definitionFinding path.toString "function" "function/method") := by
  have hmodule : (if tree.isDocumented then [] else [moduleFinding path.toString]).filter
      (fun f => f.kind = "function") = [] := by
    cases tree.isDocumented <;> simp [moduleFinding]
  simp only [detect, h, detectTree]
  rw [List.filter_append, hmodule, List.nil_append, filter_filterMap_inspect?]

/-- A finding on a function names it. -/
lemma subject?_definitionFinding (file : String) (n : Node) :
    (definitionFinding file "function" "function/method" n).subject? = some n.definedName := by
  have hlead : "Missing " ++ "function/method" ++ " docstring: " = functionLead := by decide
  rw [DocumentationFinding.subject?, definitionFinding, hlead, String.toList_append,
    Text.dropLeading?_eq_some_iff.mpr rfl]
  simp

/-! ## Both passes -/

/-- **The findings on functions are the functions without documentation.** For every program, the findings of this kind
name the functions whose documentation is missing or empty, with their first and last lines and in the order in which
the functions are listed. They are all the functions of this kind that the tree has at any depth, each of them once.

**Proof sketch.** Both passes go over the nodes level by level, and either one keeps those that define a function
without documentation (`filter_functionUnit`, `filter_detect`). The walk meets every node once
(`Node.levelOrder_perm`). -/
theorem undocumented_functions_agree (path : Path) {source : String} {tree : Node} (h : parse source = .ok tree) :
    ∃ m, Source.outline path source = .ok m ∧
      (((detect path source).filter fun f => f.kind = "function").map fun f =>
          (f.subject?, Datum.int f.firstLine, Datum.int f.lastLine)) =
        ((m.functions.filter fun fn => fn.IsUndocumented).map fun fn => (some fn.name, fn.firstLine, fn.lastLine)) ∧
      (((detect path source).filter fun f => f.kind = "function").map fun f =>
          (f.subject?, f.firstLine, f.lastLine)).Perm
        ((tree.preorder.filter lacks).map fun n => (some n.definedName, n.firstLine, n.lastLine)) := by
  refine ⟨⟨path, .python, Source.functionsOf path source tree⟩, by rw [Source.outline, h]; rfl, ?_, ?_⟩
  · rw [filter_detect path h, Source.functionsOf, filter_functionUnit, List.map_map, List.map_map]
    apply List.map_congr_left
    intro n _
    simp only [Function.comp_apply, subject?_definitionFinding]
    rfl
  · rw [filter_detect path h, List.map_map]
    have hread : ((fun f : DocumentationFinding => (f.subject?, f.firstLine, f.lastLine)) ∘
        definitionFinding path.toString "function" "function/method") =
          fun n => (some n.definedName, n.firstLine, n.lastLine) := by
      funext n
      simp only [Function.comp_apply, subject?_definitionFinding]
      rfl
    rw [hread]
    exact (tree.levelOrder_perm.filter _).map _

/-- A documented function, and a class whose method is not documented and holds a function with an empty text. -/
def nested : String :=
  "def f():\n  'Says f.'\nclass C:\n  async def g(self):\n    def h(): ''\n"

/-- The method and the function in it are told, in this order. -/
theorem undocumented_functions_nested : ∃ m, Source.outline ⟨"", ["a.py"]⟩ nested = .ok m ∧
    ((m.functions.filter fun fn => fn.IsUndocumented).map fun fn => (some fn.name, fn.firstLine, fn.lastLine)) =
      [(some "g", .int 4, .int 5), (some "h", .int 5, .int 5)] := by
  have hprogram : (parse nested).toOption.isSome = true := by decide +kernel
  have hfound : (((detect ⟨"", ["a.py"]⟩ nested).filter fun f => f.kind = "function").map fun f =>
      (f.subject?, f.firstLine, f.lastLine)) = [(some "g", 4, 5), (some "h", 5, 5)] := by decide +kernel
  cases hparse : parse nested with
  | error fault =>
    rw [hparse] at hprogram
    cases hprogram
  | ok tree =>
    obtain ⟨m, hm, hagree, -⟩ := undocumented_functions_agree ⟨"", ["a.py"]⟩ hparse
    refine ⟨m, hm, hagree.symm.trans ?_⟩
    have hlines := congrArg (List.map fun x : Option String × ℕ × ℕ => (x.1, Datum.int x.2.1, Datum.int x.2.2)) hfound
    rw [List.map_map] at hlines
    exact hlines

end Documentation

end CodeAudit
