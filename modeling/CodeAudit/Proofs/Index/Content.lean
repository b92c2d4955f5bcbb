import CodeAudit.Proofs.Index.Definition
import CodeAudit.Proofs.Text.Lines

/-!
# Texts of chunks

The chunk of a function is made from the lines of a text by the numbers that the function has in its program. The lines of
a text are not those of the program if other characters than line feeds and carriage returns end some of them. This module
tells exactly when the chunk is still made from the lines of the program.

## Main results

* `Chunker.linesBetween_eq_iff` — when lines of a text are those of the program.
* `Chunker.content_eq_sourceLines_iff` — when the chunk of a function has the lines of its definition.
-/

namespace CodeAudit

open Script Text List

/-- A character other than a line feed is in joined lines if it is in one of them. -/
lemma Text.mem_joinWith_newline {c : Char} (hc : c ≠ '\n') (parts : List String) :
    c ∈ (joinWith "\n" parts).toList ↔ ∃ part ∈ parts, c ∈ part.toList := by
  rw [joinWith, String.toList_intercalate]
  induction parts with
  | nil => simp
  | cons part parts ih =>
    cases parts with
    | nil => simp
    | cons next parts =>
      rw [map_cons, map_cons, intercalate_cons_cons, ← map_cons, mem_append, mem_append, ih]
      simp [hc]

namespace Chunker

variable {file source : String} {tree : Node}

/-! ## From which definition a chunk is made -/

/-- **Every chunk of a function or a method is made from a definition.** -/
lemma exists_of_mem_ofTree {chunk : Chunk} (hchunk : chunk ∈ ofTree file source tree) (hcode : isCode chunk = true) :
    ∃ parent, ∃ p ∈ tree.definitions, MadeFrom file (Text.lines source) tree parent p chunk := by
  rw [isCode, Bool.or_eq_true, decide_eq_true_iff, decide_eq_true_iff] at hcode
  rcases hcode with hkind | hkind
  · obtain ⟨p, hp, hmade⟩ := (covers_functions file source tree).exists_of_mem
      (mem_filter.mpr ⟨hchunk, decide_eq_true hkind⟩)
    exact ⟨_, p, hp, hmade⟩
  · obtain ⟨p, hp, hmade⟩ := (covers_methods file source tree).exists_of_mem
      (mem_filter.mpr ⟨hchunk, decide_eq_true hkind⟩)
    exact ⟨_, p, mem_of_mem_filter hp, hmade⟩

/-! ## Lines between two numbers -/

/-- No line stands behind the last one. -/
lemma linesBetween_min (lines : List String) (first last : ℕ) :
    linesBetween lines first (min last lines.length) = linesBetween lines first last := by
  rw [linesBetween, linesBetween, take_eq_take_min (i := last)]

/-- Lines that are joined to the same text as lines of a text are unbroken. -/
lemma unbroken_of_linesBetween_eq {first last : ℕ}
    (h : linesBetween (Text.lines source) first last = linesBetween (sourceLines source) first last) :
    ∀ line ∈ ((sourceLines source).take last).drop (first - 1), Unbroken line := by
  intro line hline c hc
  have hsource : line ∈ sourceLines source := mem_of_mem_take (mem_of_mem_drop hline)
  have hnewline : c ≠ '\n' := by
    rintro rfl
    exact newline_not_mem_of_mem_sourceLines hsource hc
  have hmem : c ∈ (linesBetween (sourceLines source) first last).toList :=
    (mem_joinWith_newline hnewline _).mpr ⟨line, hline, hc⟩
  rw [← h, linesBetween, mem_joinWith_newline hnewline] at hmem
  obtain ⟨line', hline', hc'⟩ := hmem
  exact unbroken_of_mem_lines (mem_of_mem_take (mem_of_mem_drop hline')) c hc'

/-- **When lines of a text are those of the program**: the lines of the program are unbroken, and the text reads the same
as many lines below as there are breaks above. -/
lemma linesBetween_eq_iff (source : String) (first last : ℕ) :
    linesBetween (Text.lines source) first last = linesBetween (sourceLines source) first last ↔
      (∀ line ∈ ((sourceLines source).take last).drop (first - 1), Unbroken line) ∧
        linesBetween (Text.lines source) first last =
          linesBetween ((Text.lines source).drop (breaks ((sourceLines source).take (first - 1)))) first last := by
  have hwindow : (∀ line ∈ ((sourceLines source).take last).drop (first - 1), Unbroken line) →
      linesBetween ((Text.lines source).drop (breaks ((sourceLines source).take (first - 1)))) first last =
        linesBetween (sourceLines source) first last := by
    intro hunbroken
    rw [linesBetween, lines_window hunbroken, ← linesBetween]
  constructor
  · intro h
    have hunbroken := unbroken_of_linesBetween_eq h
    exact ⟨hunbroken, h.trans (hwindow hunbroken).symm⟩
  · rintro ⟨hunbroken, h⟩
    exact h.trans (hwindow hunbroken)

/-- Lines are those of the program if no line among them and above them is broken. -/
lemma linesBetween_of_unbroken {first last : ℕ} (h : ∀ line ∈ (sourceLines source).take last, Unbroken line) :
    linesBetween (Text.lines source) first last = linesBetween (sourceLines source) first last := by
  rw [linesBetween_eq_iff]
  refine ⟨fun line hline => h line (mem_of_mem_drop hline), ?_⟩
  by_cases hfirst : first - 1 ≤ last
  · have hnone : breaks ((sourceLines source).take (first - 1)) = 0 := by
      refine breaks_eq_zero fun line hline => h line ?_
      exact take_subset_take_left _ hfirst hline
    rw [hnone, drop_zero]
  · have hempty : ∀ lines : List String, (lines.take last).drop (first - 1) = [] := by
      intro lines
      exact drop_of_length_le ((length_take_le _ _).trans (by omega))
    rw [linesBetween, linesBetween, hempty, hempty]

/-! ## Texts of functions -/

/-- **When the chunk of a function has the lines of its definition.** A program is read line by line. The chunk of a
function or a method of it is made from one of its definitions and tells the lines of it. It has exactly these lines of
the program if no line down to the last of them is broken. In general it has them exactly if none of them is broken and
the text reads the same as many lines below as the lines above the definition have breaks.

**Proof sketch.** The chunk has the lines of the text with the numbers of the definition. They hold no end of a line, so
they are no broken lines of the program (`unbroken_of_linesBetween_eq`); and unbroken lines stand in the text as many lines
below their numbers as there are breaks above them (`lines_window`). -/
theorem content_eq_sourceLines_iff (split : Splitter) (hparse : parse source = .ok tree) {chunk : Chunk}
    (hchunk : chunk ∈ ofScript split file source) (hcode : isCode chunk = true) :
    prepareSource source = (sourceLines source).flatMap (fun line => line.toList ++ ['\n']) ∧
      ∃ p ∈ tree.definitions, ∃ n, tree.at? p = some n ∧ chunk.firstLine = .int n.firstLine ∧
        chunk.lastLine = .int (min n.lastLine (Text.lines source).length : ℕ) ∧
        ((∀ line ∈ (sourceLines source).take n.lastLine, Unbroken line) →
          chunk.content = linesBetween (sourceLines source) n.firstLine n.lastLine) ∧
        (chunk.content = linesBetween (sourceLines source) n.firstLine n.lastLine ↔
          (∀ line ∈ ((sourceLines source).take n.lastLine).drop (n.firstLine - 1), Unbroken line) ∧
            chunk.content = linesBetween
              ((Text.lines source).drop (breaks ((sourceLines source).take (n.firstLine - 1))))
              n.firstLine n.lastLine) := by
  have hmem : chunk ∈ ofTree file source tree := by
    simpa [ofScript, hparse] using hchunk
  obtain ⟨parent, p, hp, n, hn, rfl⟩ := exists_of_mem_ofTree hmem hcode
  have hcontent : (functionChunk file (Text.lines source) (parent p) n).content =
      linesBetween (Text.lines source) n.firstLine n.lastLine :=
    linesBetween_min _ _ _
  refine ⟨prepareSource_eq_flatMap source, p, hp, n, hn, rfl, rfl, ?_, ?_⟩
  · rw [hcontent]
    exact linesBetween_of_unbroken
  · rw [hcontent]
    exact linesBetween_eq_iff source n.firstLine n.lastLine

/-- A function below a line with a form feed. -/
def belowFormFeed : String := "x = 1\x0c\ndef f():\n  return x\n"

/-- The lines of the function are unbroken, but its chunk has an empty line above them and not the last of them. -/
theorem content_belowFormFeed : ∃ tree, parse belowFormFeed = .ok tree ∧
    ∃ chunk ∈ ofScript whole "a.py" belowFormFeed, chunk.content = "\ndef f():" ∧
      ∃ n, tree.at? [1] = some n ∧ linesBetween (sourceLines belowFormFeed) n.firstLine n.lastLine = "def f():\n  return x" ∧
        chunk.firstLine = .int n.firstLine ∧
        (∀ line ∈ ((sourceLines belowFormFeed).take n.lastLine).drop (n.firstLine - 1), Unbroken line) ∧
        chunk.content ≠ linesBetween
          ((Text.lines belowFormFeed).drop (breaks ((sourceLines belowFormFeed).take (n.firstLine - 1))))
          n.firstLine n.lastLine := by
  have hprogram : ((parse belowFormFeed).toOption.map fun tree =>
      (tree.definitions, (tree.at? [1]).map fun n => (n.firstLine, n.lastLine))) = some ([[1]], some (2, 3)) := by
    decide +kernel
  have hchunks : ((ofScript whole "a.py" belowFormFeed).map fun c => (isCode c, c.content)) = [(true, "\ndef f():")] := by
    decide +kernel
  cases hparse : parse belowFormFeed with
  | error fault =>
    rw [hparse] at hprogram
    cases hprogram
  | ok tree =>
    rw [hparse] at hprogram
    obtain ⟨hdefinitions, hlines⟩ := Prod.mk.inj (Option.some.inj hprogram)
    obtain ⟨chunk, hone⟩ := List.length_eq_one_iff.mp (by simpa using congrArg List.length hchunks)
    rw [hone, List.map_singleton, List.singleton_inj, Prod.mk.injEq] at hchunks
    have hchunk : chunk ∈ ofScript whole "a.py" belowFormFeed := hone ▸ List.mem_singleton_self chunk
    obtain ⟨-, p, hp, n, hn, hfirst, -, -, hiff⟩ := content_eq_sourceLines_iff whole hparse hchunk hchunks.1
    rw [hdefinitions, List.mem_singleton] at hp
    subst hp
    rw [hn, Option.map_some, Option.some.injEq, Prod.mk.injEq] at hlines
    have htext : linesBetween (sourceLines belowFormFeed) n.firstLine n.lastLine = "def f():\n  return x" := by
      rw [hlines.1, hlines.2]
      decide +kernel
    have hunbroken : ∀ line ∈ ((sourceLines belowFormFeed).take n.lastLine).drop (n.firstLine - 1), Unbroken line := by
      rw [hlines.1, hlines.2]
      decide +kernel
    refine ⟨tree, rfl, chunk, hchunk, hchunks.2, n, hn, htext, hfirst, hunbroken, fun hsame => ?_⟩
    have hcontent := hiff.mpr ⟨hunbroken, hsame⟩
    rw [htext, hchunks.2] at hcontent
    revert hcontent
    decide

end Chunker

end CodeAudit
