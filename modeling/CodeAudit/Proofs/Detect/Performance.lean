import CodeAudit.Proofs.Analysis.Run
import CodeAudit.Proofs.Script.Tree

/-!
# When the search for costly work fails

The search for costly work inside loops asks what every call inside a loop calls. A call of an attribute of
something that is neither a name nor an attribute, such as a literal or another call, has no answer and makes the
whole search fail, on all functions. This module says that nothing else does, and what follows for an analysis.

## Main definitions

* `Performance.LoopsDetachedCall` — a detached call stands inside a loop of a tree.
* `Performance.Defeats` — the file of a function has such a call.

## Main results

* `Performance.costs_cases` — the costly work of a tree cannot be told exactly if it has such a
  call inside a loop.
* `Performance.detect_concatenates_unless_defeated` — the search on a list of functions, and in an
  analysis.
-/

namespace CodeAudit.Performance

open CodeAudit.Script Outcome List

/-- The fault of a call that has no answer. -/
def noAnswer : Fault := .unhashable "list"

/-! ## Calls without an answer -/

/-- A name, or an attribute of anything. -/
def isNamed (n : Node) : Bool :=
  match n.shape with
  | .name _ | .attribute _ => true
  | _ => false

/-- An attribute of something that is neither a name nor an attribute. -/
def isDetached : Node → Bool
  | .mk _ (.attribute _) _ [base] => !isNamed base
  | .mk _ (.attribute _) _ _ => true
  | _ => false

/-- A call of an attribute of something that is neither a name nor an attribute. -/
def isDetachedCall : Node → Bool
  | .mk _ .call _ (callee :: _) => isDetached callee
  | _ => false

/-- Only names and attributes have a chain. -/
lemma chain_eq_nil_iff (n : Node) : chain n = [] ↔ isNamed n = false := by
  obtain ⟨part, shape, extent, children⟩ := n
  cases hshape : isNamed (.mk part shape extent children) with
  | true =>
    unfold isNamed at hshape
    split at hshape
    · rename_i id hid
      obtain rfl : shape = .name id := hid
      simp [chain]
    · rename_i attr hattr
      obtain rfl : shape = .attribute attr := hattr
      rcases children with _ | ⟨base, _ | ⟨second, rest⟩⟩ <;> simp [chain]
    · cases hshape
  | false =>
    unfold chain
    split <;> simp_all [isNamed, Node.shape]

/-- A detached attribute is all of its chain, and only then a chain has one part. -/
lemma chain_attribute_eq_singleton_iff (part : Part) (attr : String) (extent : Extent) (children : List Node) :
    (∃ only, chain (.mk part (.attribute attr) extent children) = [only]) ↔
      isDetached (.mk part (.attribute attr) extent children) = true := by
  rcases children with _ | ⟨base, _ | ⟨second, rest⟩⟩
  · simp [chain, isDetached]
  · simp [chain, isDetached, chain_eq_nil_iff]
  · simp [chain, isDetached]

/-- A callee that is no attribute is not detached. -/
lemma isDetached_eq_false {callee : Node} (h : ∀ attr, callee.shape ≠ .attribute attr) :
    isDetached callee = false := by
  unfold isDetached
  split
  · exact absurd rfl (h _)
  · exact absurd rfl (h _)
  · rfl

/-- **What a call calls cannot be told exactly if it calls something detached.** -/
lemma target_cases (callee : Node) :
    isDetached callee = true ∧ target callee = .error noAnswer ∨
      isDetached callee = false ∧ ∃ call, target callee = .ok call := by
  unfold target
  split
  · rename_i id hid
    exact .inr ⟨isDetached_eq_false (by simp [hid]), _, rfl⟩
  · rename_i attr hattr
    obtain ⟨part, shape, extent, children⟩ := callee
    obtain rfl : shape = .attribute attr := hattr
    have hone := chain_attribute_eq_singleton_iff part attr extent children
    cases hdetached : isDetached (.mk part (.attribute attr) extent children) with
    | true =>
      obtain ⟨only, honly⟩ := hone.mpr hdetached
      exact .inl ⟨rfl, by simp [honly, noAnswer]⟩
    | false =>
      refine .inr ⟨rfl, ?_⟩
      split
      · exact ⟨_, rfl⟩
      · rename_i only honly
        rw [hone.mp ⟨only, honly⟩] at hdetached
        cases hdetached
      · exact ⟨_, rfl⟩
  · rename_i hname hattr
    exact .inr ⟨isDetached_eq_false hattr, _, rfl⟩

/-- The costly work of a node by itself cannot be told exactly if it is a call of something detached. -/
lemma costOf_cases (n : Node) :
    isDetachedCall n = true ∧ costOf n = .error noAnswer ∨
      isDetachedCall n = false ∧ ∃ kind, costOf n = .ok kind := by
  unfold costOf
  split
  · rename_i part extent callee others
    rcases target_cases callee with ⟨hdetached, htarget⟩ | ⟨hdetached, call, htarget⟩
    · exact .inl ⟨hdetached, by rw [htarget]; rfl⟩
    · exact .inr ⟨hdetached, _, by rw [htarget]; rfl⟩
  · exact .inr ⟨rfl, _, rfl⟩
  · rename_i n hcall _
    refine .inr ⟨?_, _, rfl⟩
    unfold isDetachedCall
    split
    · exact absurd rfl (hcall _ _ _ _)
    · rfl

/-! ## Trees -/

/-- A call of something detached stands in a tree. -/
def HasDetachedCall (n : Node) : Prop :=
  ∃ m ∈ n.preorder, isDetachedCall m = true

/-- **A call of something detached stands inside a loop of a tree.** -/
def LoopsDetachedCall (n : Node) : Prop :=
  ∃ loop ∈ n.preorder, isLoop loop = true ∧ ∃ c ∈ loop.children, HasDetachedCall c

instance : DecidablePred HasDetachedCall := fun n =>
  inferInstanceAs (Decidable (∃ m ∈ n.preorder, isDetachedCall m = true))

instance : DecidablePred LoopsDetachedCall := fun n =>
  inferInstanceAs (Decidable (∃ loop ∈ n.preorder, isLoop loop = true ∧ ∃ c ∈ loop.children, HasDetachedCall c))

/-- A call of something detached stands inside a loop, given whether the tree does. -/
def Stumbles (inLoop : Bool) (n : Node) : Prop :=
  inLoop = true ∧ HasDetachedCall n ∨ LoopsDetachedCall n

/-- A tree has such a call exactly if its root is one or one of the trees below it has one. -/
lemma stumbles_iff (inLoop : Bool) (n : Node) :
    Stumbles inLoop n ↔
      inLoop = true ∧ isDetachedCall n = true ∨ ∃ c ∈ n.children, Stumbles (inLoop || isLoop n) c := by
  constructor
  · rintro (⟨hin, m, hm, hcall⟩ | ⟨loop, hloop, hisLoop, c, hc, hhas⟩)
    · rcases Node.mem_preorder_iff.mp hm with rfl | ⟨c, hc, hmc⟩
      · exact .inl ⟨hin, hcall⟩
      · exact .inr ⟨c, hc, .inl ⟨by simp [hin], m, hmc, hcall⟩⟩
    · rcases Node.mem_preorder_iff.mp hloop with rfl | ⟨c', hc', hloop'⟩
      · exact .inr ⟨c, hc, .inl ⟨by simp [hisLoop], hhas⟩⟩
      · exact .inr ⟨c', hc', .inr ⟨loop, hloop', hisLoop, c, hc, hhas⟩⟩
  · rintro (⟨hin, hcall⟩ | ⟨c, hc, ⟨hin, m, hm, hcall⟩ | ⟨loop, hloop, hrest⟩⟩)
    · exact .inl ⟨hin, n, n.self_mem_preorder, hcall⟩
    · -- the tree below stands inside a loop: an outer one, or its parent
      rcases Bool.or_eq_true_iff.mp hin with hin | hisLoop
      · exact .inl ⟨hin, m, Node.mem_preorder_iff.mpr (.inr ⟨c, hc, hm⟩), hcall⟩
      · exact .inr ⟨n, n.self_mem_preorder, hisLoop, c, hc, m, hm, hcall⟩
    · exact .inr ⟨loop, Node.mem_preorder_iff.mpr (.inr ⟨c, hc, hloop⟩), hrest⟩

/-- What is found in a tree: what its root costs, and what is found in the trees below it. -/
def foundIn (inLoop : Bool) (n : Node) : Except Fault (List (Kind × Node)) :=
  (if inLoop then costOf n else .ok none) >>= fun own =>
    n.children.mapM (costs (inLoop || isLoop n)) >>= fun inner => .ok (own.toList.map (·, n) ++ inner.flatten)

/-- A walk goes on behind a tree as it came to it: as deep, and with what is found in the tree. -/
def Walk.GoesOn (n : Node) : Prop :=
  ∀ w : Walk, w.visit n = (foundIn (0 < w.depth) n).map fun new => { w with found := w.found ++ new }

lemma Walk.GoesOn.costs_eq {n : Node} (h : Walk.GoesOn n) (inLoop : Bool) : costs inLoop n = foundIn inLoop n := by
  have hdepth : decide (0 < if inLoop then 1 else 0) = inLoop := by cases inLoop <;> rfl
  rw [costs, h, hdepth]
  cases foundIn inLoop n <;> rfl

/-- A walk through a row of trees goes on as it does behind each of them. -/
lemma visitAll_eq {row : List Node} (h : ∀ c ∈ row, Walk.GoesOn c) (w : Walk) :
    Walk.visit.visitAll w row = (row.mapM (costs (0 < w.depth))).map fun inner =>
      { w with found := w.found ++ inner.flatten } := by
  induction row generalizing w with
  | nil =>
    change Except.ok w = Except.ok { w with found := w.found ++ [] }
    rw [append_nil]
  | cons n row ih =>
    have hn := h n mem_cons_self
    rw [Walk.visit.visitAll, hn w, ← hn.costs_eq, mapM_cons]
    cases costs (0 < w.depth) n with
    | error e => rfl
    | ok first =>
      have hrow := ih (fun c hc => h c (mem_cons_of_mem _ hc)) { w with found := w.found ++ first }
      change Walk.visit.visitAll { w with found := w.found ++ first } row = _
      rw [hrow]
      cases row.mapM (costs (0 < w.depth)) with
      | error e => rfl
      | ok others =>
        change Except.ok { w with found := w.found ++ first ++ others.flatten } =
          Except.ok { w with found := w.found ++ (first :: others).flatten }
        rw [flatten_cons, append_assoc]

/-- **A walk goes on behind every tree as it came to it.**

**Proof sketch.** Induction on the tree. Before the children of a loop the walk is one loop deeper, so each of them
stands inside a loop; behind them it is as deep as it came to them, and comes back to the depth before. -/
lemma goesOn (n : Node) : Walk.GoesOn n := by
  induction n using Node.induction_children with
  | step n ih =>
    intro w
    obtain ⟨part, shape, extent, children⟩ := n
    change ∀ c ∈ children, Walk.GoesOn c at ih
    rw [Walk.visit, Walk.meet, foundIn, Node.children]
    simp only [decide_eq_true_eq]
    cases (if 0 < w.depth then costOf (.mk part shape extent children) else .ok none) with
    | error e => rfl
    | ok own =>
      simp only [Except.map, bind, Except.bind, pure, Except.pure]
      cases isLoop (.mk part shape extent children) with
      | false =>
        rw [if_neg Bool.false_ne_true, visitAll_eq ih, Bool.or_false]
        cases children.mapM (costs (0 < w.depth)) with
        | error e => rfl
        | ok inner => simp only [Except.map, append_assoc]
      | true =>
        have hdeeper : decide (0 < w.depth + 1) = true := decide_eq_true w.depth.succ_pos
        rw [if_pos rfl, visitAll_eq ih, hdeeper, Bool.or_true]
        cases children.mapM (costs true) with
        | error e => rfl
        | ok inner => simp only [Except.map, append_assoc, Nat.add_sub_cancel]

/-- The costly work of a tree is that of its root and that of the trees below it. -/
lemma costs_eq (inLoop : Bool) (n : Node) :
    costs inLoop n = (if inLoop then costOf n else .ok none) >>= fun own =>
      n.children.mapM (costs (inLoop || isLoop n)) >>= fun inner =>
        .ok (own.toList.map (·, n) ++ inner.flatten) :=
  (goesOn n).costs_eq inLoop

/-- **The costly work of a tree cannot be told exactly if a call of something detached stands inside a loop.**

**Proof sketch.** Induction on the tree. The root by itself fails only if it stands inside a loop and is such a
call; the trees below it are looked at one after the other, each fails for that reason only, and so does the
row of them. -/
theorem costs_cases (inLoop : Bool) (n : Node) :
    Stumbles inLoop n ∧ costs inLoop n = .error noAnswer ∨
      ¬ Stumbles inLoop n ∧ ∃ found, costs inLoop n = .ok found := by
  induction n using Node.induction_children generalizing inLoop with
  | step n ih =>
    have hreason : ∀ c ∈ n.children, ∀ e, costs (inLoop || isLoop n) c = .error e → e = noAnswer := by
      intro c hc e he
      rcases ih c hc (inLoop || isLoop n) with ⟨-, hfails⟩ | ⟨-, found, hok⟩
      · exact Except.error.inj (he.symm.trans hfails)
      · rw [hok] at he
        cases he
    have hfails : ∀ c ∈ n.children,
        (costs (inLoop || isLoop n) c = .error noAnswer ↔ Stumbles (inLoop || isLoop n) c) := by
      intro c hc
      rcases ih c hc (inLoop || isLoop n) with ⟨h, hfails⟩ | ⟨h, found, hok⟩
      · simp [h, hfails]
      · simp [h, hok]
    rw [stumbles_iff, costs_eq]
    by_cases hroot : inLoop = true ∧ isDetachedCall n = true
    · rcases costOf_cases n with ⟨-, hcost⟩ | ⟨hno, -⟩
      · exact .inl ⟨.inl hroot, by rw [if_pos hroot.1, hcost]; rfl⟩
      · rw [hroot.2] at hno
        cases hno
    · obtain ⟨own, hown⟩ : ∃ own, (if inLoop then costOf n else .ok none) = .ok own := by
        split_ifs with hin
        · rcases costOf_cases n with ⟨hcall, -⟩ | ⟨-, kind, hkind⟩
          · exact absurd ⟨hin, hcall⟩ hroot
          · exact ⟨kind, hkind⟩
        · exact ⟨none, rfl⟩
      rw [hown]
      cases hbelow : n.children.mapM (costs (inLoop || isLoop n)) with
      | error e =>
        obtain ⟨c, hc, he⟩ := exists_of_mapM_eq_error hbelow
        obtain rfl := hreason c hc e he
        exact .inl ⟨.inr ⟨c, hc, (hfails c hc).mp he⟩, rfl⟩
      | ok inner =>
        refine .inr ⟨?_, _, rfl⟩
        rintro (h | ⟨c, hc, hstumbles⟩)
        · exact hroot h
        · have herror := (mapM_eq_error_iff hreason).mpr ⟨c, hc, (hfails c hc).mpr hstumbles⟩
          rw [hbelow] at herror
          cases herror

/-! ## Functions -/

/-- A function whose lines are numbers. -/
def HasLines (fn : FunctionUnit) : Prop :=
  ∃ first last : ℤ, fn.firstLine = .int first ∧ fn.lastLine = .int last

/-- **The file of a function defeats the search**: it is a program with a call of something detached inside a
loop. -/
def Defeats (fs : Files) (root : Path) (fn : FunctionUnit) : Prop :=
  ∃ source tree, fs.readText (root.join fn.path) = .ok source ∧ parse source = .ok tree ∧ LoopsDetachedCall tree

/-- Numbers are compared as numbers. -/
lemma ordered_le_int (a b : ℤ) : Datum.ordered .le (.int a) (.int b) = .ok (decide (a ≤ b)) := by
  rw [Datum.ordered]
  · have hcompare : (compare a b != .gt) = decide (a ≤ b) := by
      rw [Bool.eq_iff_iff, bne_iff_ne, decide_eq_true_iff, compare_le_iff_le]
    simpa [Datum.numeric?, Datum.Numeric.compare?, Datum.Sign.holds] using hcompare
  all_goals simp

/-- Whether a finding begins inside a function can always be told if its lines are numbers. -/
lemma exists_within {fn : FunctionUnit} (h : HasLines fn) :
    ∃ inside : PerformanceFinding → Bool, ∀ f, within fn f = .ok (inside f) := by
  obtain ⟨first, last, hfirst, hlast⟩ := h
  refine ⟨fun f => decide (first ≤ f.firstLine) && decide ((f.firstLine : ℤ) ≤ last), fun f => ?_⟩
  rw [within, hfirst, hlast, ordered_le_int, ordered_le_int]
  by_cases hle : first ≤ f.firstLine <;> simp [hle, bind, Except.bind, pure, Except.pure]

/-- The search on a function fails exactly if its file defeats it. -/
lemma inspect_cases (fs : Files) (root : Path) {fn : FunctionUnit} (h : HasLines fn) :
    Defeats fs root fn ∧ inspect fs root fn = .error noAnswer ∨
      ¬ Defeats fs root fn ∧ ∃ findings, inspect fs root fn = .ok findings := by
  unfold inspect
  split
  · rename_i f hread
    refine .inr ⟨?_, [], rfl⟩
    rintro ⟨source, tree, hsource, -⟩
    rw [hread] at hsource
    cases hsource
  · rename_i source hread
    split
    · rename_i fault hparse
      refine .inr ⟨?_, [], rfl⟩
      rintro ⟨source', tree, hsource, htree, -⟩
      obtain rfl : source = source' := Except.ok.inj (hread.symm.trans hsource)
      rw [hparse] at htree
      cases htree
    · rename_i tree hparse
      have hdefeats : Defeats fs root fn ↔ Stumbles false tree := by
        constructor
        · rintro ⟨source', tree', hsource, htree, hloops⟩
          obtain rfl : source = source' := Except.ok.inj (hread.symm.trans hsource)
          obtain rfl : tree = tree' := Except.ok.inj (hparse.symm.trans htree)
          exact .inr hloops
        · rintro (⟨hin, -⟩ | hloops)
          · cases hin
          · exact ⟨source, tree, hread, hparse, hloops⟩
      rw [hdefeats]
      obtain ⟨inside, hinside⟩ := exists_within h
      rcases costs_cases false tree with ⟨hstumbles, hcosts⟩ | ⟨hno, found, hcosts⟩
      · exact .inl ⟨hstumbles, by rw [hcosts]; rfl⟩
      · refine .inr ⟨hno, (found.map (findingAt fn.path.toString)).filter inside, ?_⟩
        rw [hcosts]
        exact filterM_eq_ok fun f _ => hinside f

/-! ## Lists of functions -/

/-- The findings are those on each function alone, one after the other. -/
def Concatenates (fs : Files) (root : Path) (functions : List FunctionUnit)
    (findings : List PerformanceFinding) : Prop :=
  ∃ parts : List (List PerformanceFinding),
    functions.map (fun fn => detect fs root [fn]) = parts.map .ok ∧ findings = parts.flatten

/-- The search on a function alone. -/
lemma detect_singleton (fs : Files) (root : Path) (fn : FunctionUnit) :
    detect fs root [fn] = inspect fs root fn := by
  rw [detect, mapM_cons]
  cases inspect fs root fn with
  | error e => rfl
  | ok findings =>
    change Except.ok [findings].flatten = Except.ok findings
    rw [flatten_singleton]

/-- **The search on a list of functions** gives the findings on each alone, unless the file of one of them
defeats it. -/
lemma detect_cases (fs : Files) (root : Path) {functions : List FunctionUnit}
    (h : ∀ fn ∈ functions, HasLines fn) :
    (∃ fn ∈ functions, Defeats fs root fn) ∧ detect fs root functions = .error noAnswer ∨
      (∀ fn ∈ functions, ¬ Defeats fs root fn) ∧
        ∃ findings, detect fs root functions = .ok findings ∧ Concatenates fs root functions findings := by
  simp only [detect]
  have hreason : ∀ fn ∈ functions, ∀ e, inspect fs root fn = .error e → e = noAnswer := by
    intro fn hfn e he
    rcases inspect_cases fs root (h fn hfn) with ⟨-, hfails⟩ | ⟨-, findings, hok⟩
    · exact Except.error.inj (he.symm.trans hfails)
    · rw [hok] at he
      cases he
  cases hrow : functions.mapM (inspect fs root) with
  | error e =>
    obtain ⟨fn, hfn, he⟩ := exists_of_mapM_eq_error hrow
    obtain rfl := hreason fn hfn e he
    rcases inspect_cases fs root (h fn hfn) with ⟨hdefeats, -⟩ | ⟨-, findings, hok⟩
    · exact .inl ⟨⟨fn, hfn, hdefeats⟩, rfl⟩
    · rw [hok] at he
      cases he
  | ok parts =>
    have hparts := mapM_eq_ok_iff.mp hrow
    refine .inr ⟨fun fn hfn hdefeats => ?_, parts.flatten, rfl, parts, ?_, rfl⟩
    · rcases inspect_cases fs root (h fn hfn) with ⟨-, hfails⟩ | ⟨hno, -⟩
      · have herror := (mapM_eq_error_iff hreason).mpr ⟨fn, hfn, hfails⟩
        rw [hrow] at herror
        cases herror
      · exact hno hdefeats
    · rw [← hparts]
      exact map_congr_left fun fn _ => detect_singleton fs root fn

/-- The functions of the modules that are read have numbers for lines. -/
lemma hasLines_of_readAll {fs : Files} {root : Path} {paths : List Path} {modules : List ModuleUnit}
    (h : Modules.readAll fs root paths = .ok modules) :
    ∀ fn ∈ modules.flatMap (·.functions), HasLines fn := by
  intro fn hfn
  obtain ⟨path, -, -, node, rfl⟩ := Modules.of_mem_flatMap_functions h hfn
  exact ⟨node.firstLine, node.lastLine, rfl, rfl⟩

/-- **What an analysis tells of costly work.** -/
lemma run_eq_ok {fs : Files} {root : Path} {request : Analysis.Request} {analysis : Analysis}
    (h : Analysis.run fs root request = .ok analysis) :
    ∃ top, fs.resolve root = .ok top ∧
      (∀ fn ∈ analysis.modules.flatMap (·.functions), HasLines fn) ∧
      analysis.findings.performance =
        Analysis.orNothing (detect fs (Files.pathOf top) (analysis.modules.flatMap (·.functions))) := by
  obtain ⟨top, infos, hstages⟩ := Analysis.stages_of_run h
  obtain ⟨-, -, -, -, hperformance, -⟩ := Analysis.of_detect hstages.detected
  exact ⟨top, hstages.resolved, hasLines_of_readAll hstages.read, hperformance⟩

/-- **The search gives the findings on each function alone, unless the file of one of them defeats it.** Then it
fails on all functions, and an analysis tells of no costly work at all; otherwise an analysis tells of the work
in each function, one after the other. A file defeats the search exactly if it is a program with a call of
something detached inside a loop.

**Proof sketch.** By `costs_cases` the costly work of a program can be told unless it has such a call inside a
loop, and whether a finding begins inside a function can always be told. So a function fails for one reason
only, and the row of all functions fails exactly if one of them does. The functions of an analysis are those of
its modules, whose lines are numbers. -/
theorem detect_concatenates_unless_defeated (fs : Files) :
    (∀ root functions, (∀ fn ∈ functions, HasLines fn) →
      (∃ fn ∈ functions, Defeats fs root fn) ∧ detect fs root functions = .error (.unhashable "list") ∨
        (∀ fn ∈ functions, ¬ Defeats fs root fn) ∧
          ∃ findings, detect fs root functions = .ok findings ∧ Concatenates fs root functions findings) ∧
    ∀ root request analysis, Analysis.run fs root request = .ok analysis →
      ∃ top, fs.resolve root = .ok top ∧
        ((∃ fn ∈ analysis.modules.flatMap (·.functions), Defeats fs (Files.pathOf top) fn) ∧
            analysis.findings.performance = [] ∨
          (∀ fn ∈ analysis.modules.flatMap (·.functions), ¬ Defeats fs (Files.pathOf top) fn) ∧
            Concatenates fs (Files.pathOf top) (analysis.modules.flatMap (·.functions))
              analysis.findings.performance) := by
  refine ⟨fun root functions h => detect_cases fs root h, fun root request analysis hrun => ?_⟩
  obtain ⟨top, htop, hlines, hperformance⟩ := run_eq_ok hrun
  refine ⟨top, htop, ?_⟩
  rw [hperformance]
  rcases detect_cases fs (Files.pathOf top) hlines with ⟨hdefeated, hfails⟩ | ⟨hno, findings, hok, hparts⟩
  · exact .inl ⟨hdefeated, by rw [hfails]; rfl⟩
  · exact .inr ⟨hno, by rw [hok]; exact hparts⟩

/-- Two programs with a loop; the second one calls an attribute of a literal in it. -/
def twoLoops : Files :=
  ⟨[(["a.py"], .file (Text.encode "for x in y:\n open(x)\n") 0),
    (["b.py"], .file (Text.encode "for x in y:\n ''.z()\n") 0)], []⟩

/-- A function that is all of a file of two lines. -/
def allOf (name : String) : FunctionUnit :=
  { id := "", name := "", lang := .python, path := ⟨"", [name]⟩, firstLine := .int 1, lastLine := .int 2, doc := none,
    text := none, metrics := [] }

/-- The search succeeds on the first program and fails on both. -/
theorem detect_twoLoops :
    (∃ findings, detect twoLoops ⟨"", []⟩ [allOf "a.py"] = .ok findings ∧
      Concatenates twoLoops ⟨"", []⟩ [allOf "a.py"] findings) ∧
      detect twoLoops ⟨"", []⟩ [allOf "a.py", allOf "b.py"] = .error (.unhashable "list") := by
  have hlines : ∀ fn ∈ [allOf "a.py", allOf "b.py"], HasLines fn := by
    intro fn hfn
    simp only [List.mem_cons, List.not_mem_nil, or_false] at hfn
    rcases hfn with rfl | rfl <;> exact ⟨1, 2, rfl, rfl⟩
  have hfirst : twoLoops.readText ⟨"", ["a.py"]⟩ = .ok "for x in y:\n open(x)\n" := by cbv
  have hsecond : twoLoops.readText ⟨"", ["b.py"]⟩ = .ok "for x in y:\n ''.z()\n" := by cbv
  have hplain : ∀ tree, parse "for x in y:\n open(x)\n" = .ok tree → ¬ LoopsDetachedCall tree := by
    intro tree htree
    have hcheck : ((parse "for x in y:\n open(x)\n").toOption.any
        fun tree => decide (¬ LoopsDetachedCall tree)) = true := by decide +kernel
    rw [htree] at hcheck
    simpa [Except.toOption] using hcheck
  have hdetached : ∃ tree, parse "for x in y:\n ''.z()\n" = .ok tree ∧ LoopsDetachedCall tree := by
    have hcheck : ((parse "for x in y:\n ''.z()\n").toOption.any
        fun tree => decide (LoopsDetachedCall tree)) = true := by decide +kernel
    cases htree : parse "for x in y:\n ''.z()\n" with
    | error fault =>
      rw [htree] at hcheck
      cases hcheck
    | ok tree =>
      rw [htree] at hcheck
      exact ⟨tree, rfl, by simpa [Except.toOption] using hcheck⟩
  constructor
  · rcases (detect_concatenates_unless_defeated twoLoops).1 ⟨"", []⟩ [allOf "a.py"]
      (fun fn hfn => hlines fn (List.mem_append_left _ hfn)) with ⟨⟨fn, hfn, hdefeats⟩, -⟩ | ⟨-, h⟩
    · obtain rfl : fn = allOf "a.py" := by simpa using hfn
      obtain ⟨source, tree, hsource, htree, hloops⟩ := hdefeats
      obtain rfl := Except.ok.inj (hfirst.symm.trans hsource)
      exact absurd hloops (hplain tree htree)
    · exact h
  · rcases (detect_concatenates_unless_defeated twoLoops).1 ⟨"", []⟩ _ hlines with ⟨-, h⟩ | ⟨hno, -⟩
    · exact h
    · obtain ⟨tree, htree, hloops⟩ := hdetached
      exact absurd ⟨_, tree, hsecond, htree, hloops⟩ (hno (allOf "b.py") (by simp))

end CodeAudit.Performance
