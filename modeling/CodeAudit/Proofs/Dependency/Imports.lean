import CodeAudit.Proofs.Analysis.Run
import CodeAudit.Proofs.Dependency.Graph

/-!
# Dependencies between scripts

The nodes of the dependency graph of a repository get their names in two ways. An edge begins at the stem of a file,
and it ends at the import, which is called by the written list of its segments. An import of `b` is called `['b']`, so
no edge leads from a script to the script that it imports, and there are no cycles.

## Main definitions

* `Imports.Mentions`, `Imports.Makes` — the names that a node or a file imports.
* `Imports.IsList` — a text that begins as a written list does.

## Main results

* `Analysis.mem_edges_iff` — the edges between scripts.
* `Analysis.no_edge_between_scripts` — what the dependency graph tells of imports between scripts.
-/

namespace CodeAudit

open List

/-! ## Blanks at the ends of a text -/

namespace Text

/-- A text whose ends are no blanks stays as it is. -/
lemma trim_eq_self {s : String} {first last : Char} {middle : List Char} (hs : s.toList = first :: middle ++ [last])
    (hfirst : isBlank first = false) (hlast : isBlank last = false) : trim s = s := by
  unfold trim dropEndWhile
  rw [hs, cons_append, dropWhile_cons_of_neg (by simp [hfirst]), ← cons_append, reverse_append,
    reverse_singleton, singleton_append, dropWhile_cons_of_neg (by simp [hlast]), reverse_cons,
    reverse_reverse, ← hs, String.ofList_toList]

end Text

namespace Imports

variable {name target : String}

/-! ## Written lists -/

/-- A text that begins as a written list does. -/
def IsList (s : String) : Prop :=
  s.toList.head? = some '['

instance (s : String) : Decidable (IsList s) :=
  inferInstanceAs (Decidable (s.toList.head? = some '['))

lemma toList_segmentsText (segments : List String) :
    ∃ middle, (segmentsText segments).toList = '[' :: middle ++ [']'] := by
  refine ⟨(String.intercalate ", " (Datum.shown.shownItems (segments.map Datum.text))).toList, ?_⟩
  simp [segmentsText, Datum.shown]

lemma isList_segmentsText (segments : List String) : IsList (segmentsText segments) := by
  obtain ⟨middle, hmiddle⟩ := toList_segmentsText segments
  simp [IsList, hmiddle]

lemma trim_segmentsText (segments : List String) : Text.trim (segmentsText segments) = segmentsText segments := by
  obtain ⟨middle, hmiddle⟩ := toList_segmentsText segments
  exact Text.trim_eq_self hmiddle (by decide) (by decide)

/-- A name without points is called by the list that holds it. -/
lemma segmentsText_splitOn (h : '.' ∉ name.toList) :
    segmentsText (Text.splitOn '.' name) = "[" ++ Text.quoted name ++ "]" := by
  have hpieces : ∀ cs : List Char, '.' ∉ cs → Text.pieces '.' cs = [cs] := by
    intro cs hcs
    induction cs with
    | nil => rfl
    | cons c cs ih =>
      rw [mem_cons, not_or] at hcs
      rw [Text.pieces, ih hcs.2, if_neg (by simpa using Ne.symm hcs.1)]
  rw [Text.splitOn, hpieces _ h]
  simp [segmentsText, Datum.shown, Datum.shown.shownItems]

/-! ## The imports of a script -/

/-- A node of a script imports a dotted name: it is an import of it, or an import from it. -/
def Mentions (n : Script.Node) (name : String) : Prop :=
  (n.shape = .importStmt ∧ ∃ child ∈ n.children, child.shape = .alias name) ∨
    (name ≠ "" ∧ ∃ level, n.shape = .importFrom (some name) level)

/-- **A file imports a dotted name.** -/
def Makes (fs : Files) (root path : Path) (name : String) : Prop :=
  ∃ source tree, fs.readText (root.join path) = .ok source ∧ Script.parse source = .ok tree ∧
    ∃ n ∈ tree.levelOrder, Mentions n name

lemma mem_ofNode_iff {n : Script.Node} :
    target ∈ ofNode n ↔ ∃ name, Mentions n name ∧ target = segmentsText (Text.splitOn '.' name) := by
  unfold ofNode Mentions
  split
  · rename_i hshape
    rw [mem_filterMap]
    constructor
    · rintro ⟨child, hchild, htarget⟩
      split at htarget
      · rename_i name hname
        exact ⟨name, .inl ⟨hshape, child, hchild, hname⟩, (Option.some.inj htarget).symm⟩
      · cases htarget
    · rintro ⟨name, ⟨-, child, hchild, hname⟩ | ⟨-, level, hfrom⟩, rfl⟩
      · exact ⟨child, hchild, by rw [hname]⟩
      · rw [hshape] at hfrom
        cases hfrom
  · rename_i source level hshape
    constructor
    · intro htarget
      split_ifs at htarget with hempty
      · cases htarget
      · exact ⟨source, .inr ⟨by simpa [String.isEmpty_iff] using hempty, level, hshape⟩, mem_singleton.mp htarget⟩
    · rintro ⟨name, ⟨himport, -⟩ | ⟨hne, level', hfrom⟩, rfl⟩
      · rw [hshape] at himport
        cases himport
      · rw [hshape] at hfrom
        cases hfrom
        rw [if_neg (by simpa [String.isEmpty_iff] using hne)]
        exact mem_singleton_self _
  · rename_i hother hfrom
    refine iff_of_false not_mem_nil ?_
    rintro ⟨name, ⟨himport, -⟩ | ⟨-, level, hshape⟩, -⟩
    · exact hother himport
    · exact hfrom name level hshape

lemma mem_ordered_iff {names : List String} : name ∈ ordered names ↔ name ∈ names := by
  simp [ordered, Sequence.sorted_eq]

/-- **The imports of a script** are the lists of the segments of the names that it imports. -/
lemma mem_read_iff {fs : Files} {root path : Path} : target ∈ read fs root path .python ↔
      ∃ name, Makes fs root path name ∧ target = segmentsText (Text.splitOn '.' name) := by
  unfold read Makes
  cases hread : fs.readText (root.join path) with
  | error e => simp
  | ok source =>
    rw [mem_ordered_iff]
    change target ∈ ofScript source ↔ _
    unfold ofScript
    cases hparse : Script.parse source with
    | error fault => simp [hparse]
    | ok tree =>
      simp only [mem_flatMap, mem_ofNode_iff]
      constructor
      · rintro ⟨n, hn, name, hname, rfl⟩
        exact ⟨name, ⟨source, tree, rfl, hparse, n, hn, hname⟩, rfl⟩
      · rintro ⟨name, ⟨source', tree', hsource, htree, n, hn, hname⟩, rfl⟩
        obtain rfl := Except.ok.inj hsource
        obtain rfl := Except.ok.inj (hparse.symm.trans htree)
        exact ⟨n, hn, name, hname, rfl⟩

/-- A file imports the names in the import statements of its tree. -/
lemma makes_of_importStmt {fs : Files} {root path : Path} {source : String}
    (hread : fs.readText (root.join path) = .ok source)
    (hparse : ((Script.parse source).toOption.any fun tree => tree.levelOrder.any fun n =>
      decide (n.shape = .importStmt) && n.children.any fun child => decide (child.shape = .alias name)) = true) :
    Makes fs root path name := by
  cases htree : Script.parse source with
  | error fault =>
    rw [htree] at hparse
    cases hparse
  | ok tree =>
    rw [htree] at hparse
    simp only [Except.toOption, Option.any_some, any_eq_true, Bool.and_eq_true, decide_eq_true_eq] at hparse
    obtain ⟨n, hn, hshape, child, hchild, hname⟩ := hparse
    exact ⟨source, tree, hread, htree, n, hn, .inl ⟨hshape, child, hchild, hname⟩⟩

end Imports

/-! ## The graph of an analysis -/

namespace Analysis

open Imports Outcome

variable {fs : Files} {root : Path} {request : Request} {a : Analysis} {top : Place} {infos : List FileInfo}

/-- **The edges between scripts.** An edge leads from the stem of a script to the written list of the segments of a
name that it imports. -/
lemma mem_edges_iff (h : Stages fs root request a top infos) (hscripts : ∀ info ∈ infos, info.language = .python)
    {source target : String} :
    (source, target) ∈ a.graph.edges ↔ source ≠ "" ∧ source ≠ target ∧
      ∃ info ∈ infos, Text.trim info.path.stem = source ∧
        ∃ name, Makes fs (Files.pathOf top) info.path name ∧ target = segmentsText (Text.splitOn '.' name) := by
  rw [h.graph, Graph.mem_edges_ofEdges, h.dependencies]
  simp only [dependenciesOf, mem_flatMap, mem_map, Graph.cleanEdge?_eq_some_iff]
  constructor
  · rintro ⟨d, ⟨info, hinfo, imported, himported, rfl⟩, hsource, htarget, hne, -, hdiffer⟩
    rw [hscripts info hinfo] at himported
    obtain ⟨name, hname, rfl⟩ := mem_read_iff.mp himported
    exact ⟨hne, hdiffer, info, hinfo, hsource, name, hname, by rw [← htarget, trim_segmentsText]⟩
  · rintro ⟨hne, hdiffer, info, hinfo, hsource, name, hname, rfl⟩
    refine ⟨(info.path.stem, segmentsText (Text.splitOn '.' name)), ⟨info, hinfo, _, ?_, rfl⟩, hsource,
      trim_segmentsText _, hne, ?_, hdiffer⟩
    · rw [hscripts info hinfo]
      exact mem_read_iff.mpr ⟨name, hname, rfl⟩
    · intro hempty
      have hlist := isList_segmentsText (Text.splitOn '.' name)
      simp [IsList, show segmentsText (Text.splitOn '.' name) = "" from hempty] at hlist

/-- Every edge leads to a written list. -/
lemma isList_of_mem_edges (h : Stages fs root request a top infos)
    (hscripts : ∀ info ∈ infos, info.language = .python) {source target : String}
    (he : (source, target) ∈ a.graph.edges) : IsList target := by
  obtain ⟨-, -, -, -, -, name, -, htarget⟩ := (mem_edges_iff h hscripts).mp he
  rw [htarget]
  exact isList_segmentsText _

/-- **What the dependency graph tells of imports between scripts.** Let all listed files be scripts. The edges lead
from the stem of a script to the written list of the segments of a name that it imports; for a name without points
this is the list that holds it. So no edge leads to a script whose stem does not begin as a list does, and its fan-in
is zero if it is told. If no stem does, there are no cycles, and all imports between scripts become edges
exactly if no script imports another one.

**Proof sketch.** The targets are written lists (`mem_edges_iff`), so they are no stems, and no edge goes on where
another one ends (`Graph.cycles_eq_nil`). -/
theorem no_edge_between_scripts {fs : Files} {root : Path} {request : Request} {a : Analysis}
    (hrun : run fs root request = .ok a) {top : Place} (htop : fs.resolve root = .ok top) {infos : List FileInfo}
    (hinfos : files fs (Files.pathOf top) request = .ok infos) (hscripts : ∀ info ∈ infos, info.language = .python) :
    (∀ source target, (source, target) ∈ a.graph.edges ↔ source ≠ "" ∧ source ≠ target ∧
        ∃ info ∈ infos, Text.trim info.path.stem = source ∧
          ∃ name, Makes fs (Files.pathOf top) info.path name ∧ target = segmentsText (Text.splitOn '.' name)) ∧
      (∀ name : String, '.' ∉ name.toList → segmentsText (Text.splitOn '.' name) = "[" ++ Text.quoted name ++ "]") ∧
      (∀ b, ¬ IsList b → (∀ source, (source, b) ∉ a.graph.edges) ∧ ∀ k, (b, k) ∈ a.metrics.fanIn → k = 0) ∧
      ((∀ info ∈ infos, ¬ IsList info.path.stem ∧ ¬ IsList (Text.trim info.path.stem)) →
        a.metrics.cycles = [] ∧
          ((∀ info ∈ infos, ∀ other ∈ infos, Makes fs (Files.pathOf top) info.path other.path.stem →
              info.path.stem ≠ other.path.stem → (info.path.stem, other.path.stem) ∈ a.graph.edges) ↔
            ∀ info ∈ infos, ∀ other ∈ infos, Makes fs (Files.pathOf top) info.path other.path.stem →
              info.path.stem = other.path.stem)) := by
  obtain ⟨top', infos', h⟩ := stages_of_run hrun
  obtain rfl : top = top' := Except.ok.inj (htop.symm.trans h.resolved)
  obtain rfl : infos = infos' := Except.ok.inj (hinfos.symm.trans h.scanned)
  have hlist : ∀ source target, (source, target) ∈ a.graph.edges → IsList target := fun source target he =>
    isList_of_mem_edges h hscripts he
  refine ⟨fun source target => mem_edges_iff h hscripts, fun name => segmentsText_splitOn, fun b hb => ⟨?_, ?_⟩,
    fun hstems => ⟨?_, ?_⟩⟩
  · exact fun source he => hb (hlist source b he)
  · intro k hk
    rw [h.metrics] at hk
    exact Graph.eq_zero_of_mem_fanIn (fun source he => hb (hlist source b he)) hk
  · have hcycles : a.graph.cycles = [] := by
      refine Graph.cycles_eq_nil ?_
      rintro ⟨before, between⟩ hd ⟨source, target⟩ he heq
      obtain ⟨-, -, info, hinfo, hsource, -⟩ := (mem_edges_iff h hscripts).mp he
      have hbetween := hlist before between hd
      rw [show between = source from heq, ← hsource] at hbetween
      exact (hstems info hinfo).2 hbetween
    rw [h.metrics]
    simp [Graph.metrics, hcycles]
  · constructor
    · intro hedges info hinfo other hother hmakes
      by_contra hne
      exact (hstems other hother).1 (hlist _ _ (hedges info hinfo other hother hmakes hne))
    · intro hnone info hinfo other hother hmakes hne
      exact absurd (hnone info hinfo other hother hmakes) hne

/-- Two scripts that import each other. -/
def mutualPair : Files :=
  pair (Text.encode "import b\n") (Text.encode "import a\n")

/-- Two scripts that import each other get an edge each, but neither leads to the other script. -/
theorem no_edge_mutualPair : ∃ a, run mutualPair ⟨"", []⟩ allScripts = .ok a ∧
    Makes mutualPair (Files.pathOf []) ⟨"", ["a.py"]⟩ "b" ∧ Makes mutualPair (Files.pathOf []) ⟨"", ["b.py"]⟩ "a" ∧
      ("a", "['b']") ∈ a.graph.edges ∧ ("a", "b") ∉ a.graph.edges ∧ ("b", "a") ∉ a.graph.edges ∧
        a.metrics.cycles = [] := by
  have hlisted : ((files mutualPair (Files.pathOf []) allScripts).toOption.map fun infos => infos.all fun info =>
      info.language = .python ∧ ¬ IsList info.path.stem ∧ ¬ IsList (Text.trim info.path.stem)) = some true := by
    decide +kernel
  have hgraph : ((run mutualPair ⟨"", []⟩ allScripts).toOption.map (·.graph.edges)) =
      some [("a", "['b']"), ("b", "['a']")] := by
    decide +kernel
  have htop : (mutualPair.resolve ⟨"", []⟩).toOption = some [] := by decide +kernel
  have hread : (mutualPair.readText ((Files.pathOf []).join ⟨"", ["a.py"]⟩)).toOption = some "import b\n" ∧
      (mutualPair.readText ((Files.pathOf []).join ⟨"", ["b.py"]⟩)).toOption = some "import a\n" := by
    decide +kernel
  obtain ⟨infos, hinfos, hall⟩ := exists_ok_of_map hlisted
  simp only [all_eq_true, decide_eq_true_eq] at hall
  obtain ⟨a, hrun, hedges⟩ := exists_ok_of_map hgraph
  obtain ⟨-, -, hnone, hcycles⟩ :=
    no_edge_between_scripts hrun (eq_ok_of_toOption htop) hinfos fun info hinfo => (hall info hinfo).1
  exact ⟨a, hrun, makes_of_importStmt (eq_ok_of_toOption hread.1) (by decide +kernel),
    makes_of_importStmt (eq_ok_of_toOption hread.2) (by decide +kernel), by simp [hedges],
    (hnone "b" (by decide)).1 _, (hnone "a" (by decide)).1 _, (hcycles fun info hinfo => (hall info hinfo).2).1⟩

end Analysis

end CodeAudit
