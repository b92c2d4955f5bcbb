import Mathlib
import CodeAudit.Script.Tree

/-!
# Walks of syntax trees

## Main results

* `Script.Node.mem_preorder_iff` — the nodes of a tree are its root and the nodes below its children.
* `Script.Node.levelOrder_perm` — a breadth-first walk meets every node of a tree once.
-/

namespace CodeAudit.Script.Node

/-- What holds of a node if it holds of its children holds of every node. -/
@[elab_as_elim]
theorem induction_children {motive : Node → Prop} (n : Node)
    (step : ∀ n : Node, (∀ c ∈ n.children, motive c) → motive n) : motive n := by
  induction hsize : sizeOf n using Nat.strong_induction_on generalizing n with
  | _ size ih =>
    refine step n fun c hc => ih (sizeOf c) ?_ c rfl
    cases n with
    | mk part shape extent children =>
      have hlt : sizeOf c < sizeOf children := List.sizeOf_lt_of_mem hc
      rw [← hsize, mk.sizeOf_spec]
      omega

lemma mem_preorderList {m : Node} {row : List Node} :
    m ∈ preorder.preorderList row ↔ ∃ n ∈ row, m ∈ n.preorder := by
  induction row with
  | nil => simp [preorder.preorderList]
  | cons n row ih => simp [preorder.preorderList, ih]

/-- **The nodes of a tree** are its root and the nodes below its children. -/
lemma mem_preorder_iff {m n : Node} : m ∈ n.preorder ↔ m = n ∨ ∃ c ∈ n.children, m ∈ c.preorder := by
  cases n with
  | mk part shape extent children => rw [preorder, List.mem_cons, mem_preorderList, Node.children]

lemma self_mem_preorder (n : Node) : n ∈ n.preorder :=
  mem_preorder_iff.mpr (.inl rfl)

/-! ## Level by level -/

lemma preorderList_append (row row' : List Node) :
    preorder.preorderList (row ++ row') = preorder.preorderList row ++ preorder.preorderList row' := by
  induction row with
  | nil => rfl
  | cons n row ih => simp [preorder.preorderList, ih]

/-- The nodes of a row of trees are its roots and the nodes of the trees one level down. -/
lemma preorderList_perm_offspring (row : List Node) :
    (preorder.preorderList row).Perm (row ++ preorder.preorderList (offspring row)) := by
  induction row with
  | nil => exact .refl _
  | cons n row ih =>
    cases n with
    | mk part shape extent cs =>
      simp only [preorder.preorderList, preorder, offspring, List.flatMap_cons, children, preorderList_append,
        List.cons_append]
      refine .cons _ ((ih.append_left _).trans ?_)
      rw [← List.append_assoc, ← List.append_assoc]
      exact List.perm_append_comm.append_right _

lemma levels_perm (row : List Node) : (levels row).Perm (preorder.preorderList row) := by
  fun_induction levels row with
  | case1 => exact .refl _
  | case2 n rest ih => exact (ih.append_left (n :: rest)).trans (preorderList_perm_offspring _).symm

/-- **A breadth-first walk meets every node of a tree once.** -/
lemma levelOrder_perm (n : Node) : n.levelOrder.Perm n.preorder := by
  have h := levels_perm [n]
  rwa [preorder.preorderList, preorder.preorderList, List.append_nil] at h

end CodeAudit.Script.Node
