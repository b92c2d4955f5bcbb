import CodeAudit.Proofs.Outcome
import CodeAudit.Source.Declarations

/-!
# The order in which declarations are found

A walk takes one node after another from a stack and puts the children of the node there, the last one first. So the
nodes ahead of a walk are those of the trees on its stack in preorder, and each turn visits the first of them. A tree of
`n` nodes is walked in `n` turns, unless a declaration that cannot be placed ends the walk before.

## Main definitions

* `Declarations.IsNamed` — a node that declares a function with a name.
* `Declarations.Tells` — what is told of the function that a node declares.

## Main results

* `Declarations.exists_mapM_declared_iff` — when every node of a row can be visited.
* `Declarations.outline_lists_preorder` — the functions of a tree are its declarations in preorder, or none.
-/

namespace CodeAudit.Declarations

open List

variable (path : Path) (lang : Language) {bytes : List UInt8} {n : SyntaxNode}

/-! ## One node -/

/-- A node declares a function with a name, which has more than blanks. -/
def IsNamed (bytes : List UInt8) (n : SyntaxNode) : Prop :=
  n.kind = "function_declaration" ∧ ∃ span ∈ n.name, Text.trim (textBetween bytes span.1 span.2) ≠ ""

instance (bytes : List UInt8) : DecidablePred (IsNamed bytes) :=
  fun _ => inferInstanceAs (Decidable (_ ∧ _))

/-- The points of a node can be read as integers. -/
def IsPlaced (n : SyntaxNode) : Prop :=
  (∃ k, n.startPoint.toInt = .ok k) ∧ ∃ k, n.stopPoint.toInt = .ok k

/-- **What is told of the function that a node declares**: its name and its text are stretches of the source, and its
lines count from one where the points of the node count from zero. -/
structure Tells (path : Path) (lang : Language) (bytes : List UInt8) (n : SyntaxNode) (fn : FunctionUnit) : Prop where
  name : ∃ start stop, n.name = some (start, stop) ∧
    fn.name = Text.trim (Text.decodeLossy (Sequence.slice bytes start stop))
  text : fn.text = some (Text.decodeLossy (Sequence.slice bytes n.startByte n.stopByte))
  firstLine : ∃ k, n.startPoint.toInt = .ok k ∧ fn.firstLine = .int (k + 1)
  lastLine : ∃ k, n.stopPoint.toInt = .ok k ∧ fn.lastLine = .int (k + 1)
  id : fn.id = path.toString ++ "::" ++ fn.name ++ ":" ++ fn.firstLine.str
  origin : fn.path = path ∧ fn.lang = lang

/-- A node that declares no function with a name is passed over. -/
lemma declared_of_not_named (h : ¬ IsNamed bytes n) : declared path lang bytes n = .ok none := by
  unfold declared
  by_cases hkind : n.kind = "function_declaration"
  · cases hname : n.name with
    | none => simp [hkind, pure, Except.pure]
    | some span =>
      have hempty : Text.trim (textBetween bytes span.1 span.2) = "" := by
        by_contra hne
        exact h ⟨hkind, span, hname, hne⟩
      simp [hkind, hempty, pure, Except.pure]
  · simp [hkind, pure, Except.pure]

/-- A node that declares a function with a name tells it as soon as its points are read. -/
lemma exists_declared_eq (h : IsNamed bytes n) :
    ∃ tell : ℤ → ℤ → FunctionUnit,
      declared path lang bytes n = (do
        let first ← n.startPoint.toInt
        let last ← n.stopPoint.toInt
        return some (tell first last)) ∧
      ∀ first last, n.startPoint.toInt = .ok first → n.stopPoint.toInt = .ok last →
        Tells path lang bytes n (tell first last) := by
  obtain ⟨hkind, span, hname, hne⟩ := h
  have hname : n.name = some span := hname
  unfold declared
  simp only [hkind, ne_eq, not_true_eq_false, if_false, hname, String.isEmpty_iff, hne]
  exact ⟨fun first last => _, rfl, fun first last hfirst hlast =>
    ⟨⟨span.1, span.2, hname, rfl⟩, rfl, ⟨first, hfirst, rfl⟩, ⟨last, hlast, rfl⟩, rfl, rfl, rfl⟩⟩

/-- The function of a node that declares one with a name is found if its points can be read. -/
lemma exists_declared (h : IsNamed bytes n) (hplaced : IsPlaced n) :
    ∃ fn, declared path lang bytes n = .ok (some fn) ∧ Tells path lang bytes n fn := by
  obtain ⟨tell, hdeclared, htells⟩ := exists_declared_eq path lang h
  obtain ⟨⟨first, hfirst⟩, last, hlast⟩ := hplaced
  rw [hdeclared, hfirst, hlast]
  exact ⟨tell first last, rfl, htells first last hfirst hlast⟩

/-- The points of a node that declares a function with a name must be readable. -/
lemma declared_of_not_placed (h : IsNamed bytes n) (hplaced : ¬ IsPlaced n) :
    ∃ e, declared path lang bytes n = .error e := by
  obtain ⟨tell, hdeclared, -⟩ := exists_declared_eq path lang h
  rw [hdeclared]
  cases hfirst : n.startPoint.toInt with
  | error e => exact ⟨e, rfl⟩
  | ok first =>
    cases hlast : n.stopPoint.toInt with
    | error e => exact ⟨e, rfl⟩
    | ok last => exact absurd ⟨⟨first, hfirst⟩, last, hlast⟩ hplaced

/-! ## A row of nodes -/

variable (bytes) in
/-- **When every node of a row can be visited**: when the named declarations among them are placed. -/
lemma exists_mapM_declared_iff (nodes : List SyntaxNode) :
    (∃ found, nodes.mapM (declared path lang bytes) = .ok found) ↔ ∀ n ∈ nodes.filter (IsNamed bytes), IsPlaced n := by
  constructor
  · rintro ⟨found, hfound⟩ n hn
    obtain ⟨hn, hnamed⟩ := mem_filter.mp hn
    by_contra hplaced
    obtain ⟨e, he⟩ := declared_of_not_placed path lang (of_decide_eq_true hnamed) hplaced
    have hmem : declared path lang bytes n ∈ found.map Except.ok := by
      rw [← Outcome.mapM_eq_ok_iff.mp hfound]
      exact mem_map_of_mem hn
    simp [he] at hmem
  · intro hplaced
    apply Outcome.exists_mapM
    intro n hn
    by_cases hnamed : IsNamed bytes n
    · obtain ⟨fn, hfn, -⟩ :=
        exists_declared path lang hnamed (hplaced n (mem_filter.mpr ⟨hn, decide_eq_true hnamed⟩))
      exact ⟨_, hfn⟩
    · exact ⟨_, declared_of_not_named path lang hnamed⟩

/-- The functions that a row of nodes declares are those of the named declarations among them, in their order. -/
lemma forall₂_tells_of_mapM {nodes : List SyntaxNode} {found : List (Option FunctionUnit)}
    (h : nodes.mapM (declared path lang bytes) = .ok found) :
    Forall₂ (Tells path lang bytes) (nodes.filter (IsNamed bytes)) (found.filterMap id) := by
  have hplaced := (exists_mapM_declared_iff path lang bytes nodes).mp ⟨found, h⟩
  induction nodes generalizing found with
  | nil =>
    obtain rfl := Except.ok.inj h
    exact .nil
  | cons n nodes ih =>
    rw [mapM_cons] at h
    obtain ⟨fn?, hfn, h⟩ := Outcome.bind_eq_ok.mp h
    obtain ⟨rest, hrest, h⟩ := Outcome.bind_eq_ok.mp h
    obtain rfl := Except.ok.inj h
    by_cases hnamed : IsNamed bytes n
    · rw [filter_cons_of_pos (by simpa using hnamed)] at hplaced ⊢
      obtain ⟨fn, hfn', htells⟩ :=
        exists_declared path lang hnamed (hplaced n mem_cons_self)
      obtain rfl := Except.ok.inj (hfn'.symm.trans hfn)
      exact .cons htells (ih hrest fun m hm => hplaced m (mem_cons_of_mem _ hm))
    · rw [filter_cons_of_neg (by simpa using hnamed)] at hplaced ⊢
      obtain rfl := Except.ok.inj ((declared_of_not_named path lang hnamed).symm.trans hfn)
      rw [filterMap_cons_none rfl]
      exact ih hrest hplaced

/-! ## Turns of a walk -/

namespace Walk

variable (bytes)

/-- A number of turns of a walk. -/
def turns (path : Path) (lang : Language) (bytes : List UInt8) : ℕ → Walk → Except Fault Walk
  | 0, w => .ok w
  | k + 1, w => w.turn path lang bytes >>= turns path lang bytes k

/-- If no node is ahead, none waits. -/
lemma stack_eq_nil_of_ahead {w : Walk} (h : w.ahead = []) : w.stack = [] := by
  cases hstack : w.stack with
  | nil => rfl
  | cons n stack =>
    rw [ahead, hstack, flatMap_cons, SyntaxNode.preorder_eq] at h
    simp at h

/-- What a turn makes of a walk with a node that waits. -/
lemma turn_of_stack {w : Walk} {stack : List SyntaxNode} (hstack : w.stack = n :: stack) :
    w.turn path lang bytes =
      (declared path lang bytes n).map fun fn? => ⟨push n.children stack, w.found ++ fn?.toList⟩ := by
  rw [turn, hstack]
  dsimp only
  cases declared path lang bytes n <;> rfl

/-- **As many turns as nodes are ahead visit these nodes in their order**, and then no node waits.

**Proof sketch.** Induction on the number of nodes ahead. A turn visits the first of them and leaves the others ahead
(`ahead_of_stack`), so the turns after it visit these. -/
lemma turns_ahead (w : Walk) :
    turns path lang bytes w.ahead.length w =
      (w.ahead.mapM (declared path lang bytes)).map fun found => ⟨[], w.found ++ found.filterMap id⟩ := by
  induction hcount : w.ahead.length generalizing w with
  | zero =>
    have hahead : w.ahead = [] := length_eq_zero_iff.mp hcount
    have hstack := stack_eq_nil_of_ahead hahead
    obtain ⟨stack, found⟩ := w
    obtain rfl : stack = [] := hstack
    simp [hahead, turns, pure, Except.pure, Except.map]
  | succ k ih =>
    cases hstack : w.stack with
    | nil => simp [ahead, hstack] at hcount
    | cons n stack =>
      cases hdeclared : declared path lang bytes n with
      | error e =>
        rw [turns, turn_of_stack path lang bytes hstack, ahead_of_stack hstack w.found, mapM_cons, hdeclared]
        rfl
      | ok fn? =>
        have hahead := ahead_of_stack hstack (w.found ++ fn?.toList)
        have hnext := ih ⟨push n.children stack, w.found ++ fn?.toList⟩ (by simpa [hahead] using hcount)
        rw [turns, turn_of_stack path lang bytes hstack, hahead, mapM_cons, hdeclared]
        refine hnext.trans ?_
        generalize mapM (declared path lang bytes) (ahead _) = outcome
        cases outcome with
        | error e => rfl
        | ok found => cases fn? <;> simp [Except.map, bind, Except.bind, pure, Except.pure]

/-- **A walk ends after as many turns as nodes are ahead**, and gives what was found by then. -/
lemma run_eq_turns (w : Walk) :
    w.run path lang bytes = (turns path lang bytes w.ahead.length w).map (·.found) := by
  fun_induction run path lang bytes w with
  | case1 w hstack => simp [ahead, hstack, turns, Except.map]
  | case2 w n stack hstack next hturn ih =>
    rw [ahead_of_turn hstack hturn, length_cons, turns, hturn, ih]
    rfl
  | case3 w n stack hstack e hturn =>
    rw [ahead_of_stack hstack w.found, length_cons, turns, hturn]
    rfl

end Walk

/-! ## The functions of a tree -/

/-- The named declarations of a tree, at any depth, each before those inside it and behind it. -/
def declarations (bytes : List UInt8) (tree : SyntaxNode) : List SyntaxNode :=
  tree.preorder.filter (IsNamed bytes)

/-- **The functions of a tree are its declarations in preorder, or none.** The walk through a tree ends after as many
turns as the tree has nodes, or a turn before fails. If the points of every named declaration of the tree can be read,
it ends with one function for each of them, in preorder. If the points of one cannot be read, the walk fails and no
function is known, whatever was found by then.

**Proof sketch.** Each turn visits the first of the nodes ahead, which at the start are those of the tree in preorder
(`Walk.turns_ahead`). A node that can be visited gives the function that it declares, if any (`forall₂_tells_of_mapM`);
only a named declaration that is not placed cannot be visited (`exists_mapM_declared_iff`). -/
theorem outline_lists_preorder (path : Path) (lang : Language) (source : String) (tree : SyntaxNode) :
    ((∀ n ∈ declarations (Text.encode source) tree, IsPlaced n) →
      Walk.turns path lang (Text.encode source) tree.preorder.length ⟨[tree], []⟩ =
          .ok ⟨[], (outline path lang source (some tree)).functions⟩ ∧
        List.Forall₂ (Tells path lang (Text.encode source)) (declarations (Text.encode source) tree)
          (outline path lang source (some tree)).functions) ∧
    ((∃ n ∈ declarations (Text.encode source) tree, ¬ IsPlaced n) →
      (∃ e, Walk.turns path lang (Text.encode source) tree.preorder.length ⟨[tree], []⟩ = .error e) ∧
        (outline path lang source (some tree)).functions = []) := by
  have hfunctions : (outline path lang source (some tree)).functions =
      functionsOf path lang (Text.encode source) tree := rfl
  generalize Text.encode source = bytes at hfunctions ⊢
  have hahead : Walk.ahead ⟨[tree], []⟩ = tree.preorder := List.flatMap_singleton ..
  have hturns := Walk.turns_ahead path lang bytes ⟨[tree], []⟩
  have hrun := Walk.run_eq_turns path lang bytes ⟨[tree], []⟩
  rw [hahead] at hturns hrun
  rw [hfunctions, functionsOf, hrun, hturns]
  have hiff := exists_mapM_declared_iff path lang bytes tree.preorder
  cases hrow : tree.preorder.mapM (declared path lang bytes) with
  | ok found =>
    refine ⟨fun _ => ⟨rfl, forall₂_tells_of_mapM path lang hrow⟩, ?_⟩
    rintro ⟨n, hn, hplaced⟩
    exact absurd (hiff.mp ⟨found, hrow⟩ n hn) hplaced
  | error e =>
    refine ⟨fun hplaced => ?_, fun _ => ⟨⟨e, rfl⟩, rfl⟩⟩
    obtain ⟨found, hfound⟩ := hiff.mpr hplaced
    rw [hrow] at hfound
    cases hfound

/-- A function inside another one. -/
def nestedSource : String := "function f() \x7b function g() \x7b\x7d \x7d"

/-- The node of the inner function, which starts at a given point. -/
def innerNode (point : Datum) : SyntaxNode :=
  ⟨"function_declaration", 15, 30, point, .int 0, some (24, 25), []⟩

/-- The node of the outer function. -/
def outerNode (point : Datum) : SyntaxNode :=
  ⟨"function_declaration", 0, 32, .int 0, .int 0, some (9, 10),
    [⟨"statement_block", 13, 32, .int 0, .int 0, none, [innerNode point]⟩]⟩

/-- The tree of both. -/
def nestedTree (point : Datum) : SyntaxNode :=
  ⟨"program", 0, 32, .int 0, .int 0, none, [outerNode point]⟩

/-- The names of the two functions are not blank. -/
lemma declarations_nestedTree (point : Datum) :
    declarations (Text.encode nestedSource) (nestedTree point) = [outerNode point, innerNode point] := by
  have hf : Text.trim (textBetween (Text.encode nestedSource) 9 10) ≠ "" := by decide +kernel
  have hg : Text.trim (textBetween (Text.encode nestedSource) 24 25) ≠ "" := by decide +kernel
  simp [declarations, nestedTree, outerNode, innerNode, SyntaxNode.preorder_eq, IsNamed, hf, hg]

/-- The outer function is found before the inner one, and if the point of the inner one is a pair, none is found. -/
theorem outline_nestedTree :
    (∃ f g, (outline (.ofString "a.js") .javascript nestedSource (some (nestedTree (.int 0)))).functions = [f, g] ∧
      f.name = "f" ∧ g.name = "g" ∧ g.text = some "function g() \x7b\x7d" ∧ g.firstLine = .int 1) ∧
    (outline (.ofString "a.js") .javascript nestedSource
      (some (nestedTree (.tuple [.int 0, .int 15])))).functions = [] := by
  constructor
  · have hplaced : ∀ n ∈ declarations (Text.encode nestedSource) (nestedTree (.int 0)), IsPlaced n := by
      rw [declarations_nestedTree]
      intro n hn
      rcases List.mem_pair.mp hn with rfl | rfl
      · exact ⟨⟨0, rfl⟩, 0, rfl⟩
      · exact ⟨⟨0, rfl⟩, 0, rfl⟩
    obtain ⟨-, htells⟩ :=
      (outline_lists_preorder (.ofString "a.js") .javascript nestedSource (nestedTree (.int 0))).1 hplaced
    rw [declarations_nestedTree, List.forall₂_cons_left_iff] at htells
    obtain ⟨f, rest, hf, htells, hfunctions⟩ := htells
    obtain ⟨g, rest', hg, htells, hrest⟩ := List.forall₂_cons_left_iff.mp htells
    obtain rfl := List.forall₂_nil_left_iff.mp htells
    refine ⟨f, g, by rw [hfunctions, hrest], ?_, ?_, ?_, ?_⟩
    · obtain ⟨start, stop, hspan, hname⟩ := hf.name
      obtain ⟨rfl, rfl⟩ := Prod.mk.inj (Option.some.inj hspan)
      rw [hname]
      decide +kernel
    · obtain ⟨start, stop, hspan, hname⟩ := hg.name
      obtain ⟨rfl, rfl⟩ := Prod.mk.inj (Option.some.inj hspan)
      rw [hname]
      decide +kernel
    · rw [hg.text]
      decide +kernel
    · obtain ⟨k, hk, hline⟩ := hg.firstLine
      obtain rfl := Except.ok.inj hk
      exact hline
  · refine ((outline_lists_preorder (.ofString "a.js") .javascript nestedSource _).2 ?_).2
    refine ⟨innerNode (.tuple [.int 0, .int 15]), ?_, ?_⟩
    · rw [declarations_nestedTree]
      exact List.mem_pair.mpr (.inr rfl)
    · rintro ⟨⟨k, hk⟩, -⟩
      cases hk

end CodeAudit.Declarations
