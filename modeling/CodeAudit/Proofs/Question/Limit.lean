import Mathlib
import CodeAudit.Proofs.Outcome
import CodeAudit.Question.Artifacts

/-!
# How much of the reports goes with a question

A report that is longer than a limit loses its middle. What is left of two reports is bounded by the limit, and the
blanks at the end of the whole text are dropped.

## Main results

* `Artifacts.shortened_eq_withoutMiddle` — a text that is too long keeps its two ends.
* `Artifacts.text_keeps_ends` — the text of two reports.
-/

namespace CodeAudit.Artifacts

open Outcome

/-- **A text without its middle**, if it has more than `limit` characters: the first half of the limit, rounded down, and
the last half, rounded up. -/
def withoutMiddle (limit : ℕ) (s : String) : String :=
  if s.length ≤ limit then s
  else .ofList (s.toList.take (limit / 2)) ++ "\n...\n" ++ .ofList (s.toList.rtake ((limit + 1) / 2))

/-- A negative half is rounded down, so it counts the upper half of the limit from the end. -/
lemma neg_fdiv_two (limit : ℕ) : (-(limit : ℤ)).fdiv 2 = -((limit + 1) / 2 : ℕ) := by
  rw [Int.fdiv_eq_ediv_of_nonneg _ (by decide)]
  omega

/-- **A text that is too long keeps its two ends.** -/
lemma shortened_eq_withoutMiddle {limit : ℕ} (h : 1 ≤ limit) (s : String) :
    shortened limit s = withoutMiddle limit s := by
  have hlength : s.toList.length = s.length := String.length_toList
  have hhead : Sequence.slice s.toList 0 ((limit : ℤ).fdiv 2) = s.toList.take (limit / 2) := by
    have hhalf : Sequence.offset s.toList.length ((limit : ℤ).fdiv 2) = limit / 2 := by
      rw [Int.fdiv_eq_ediv_of_nonneg _ (by decide), Sequence.offset, if_neg (by omega)]
      omega
    rw [Sequence.slice, hhalf]
    rfl
  simp only [shortened, withoutMiddle, Nat.cast_le, hlength]
  split_ifs with hfits
  · rfl
  · have htail : Sequence.slice s.toList ((-(limit : ℤ)).fdiv 2) s.length = s.toList.rtake ((limit + 1) / 2) := by
      have hfrom : Sequence.offset s.toList.length ((-(limit : ℤ)).fdiv 2) = s.toList.length - (limit + 1) / 2 := by
        rw [neg_fdiv_two, Sequence.offset, if_pos (by omega)]
        omega
      have hto : Sequence.offset s.toList.length s.length = s.toList.length := by
        rw [Sequence.offset, if_neg (by omega)]
        omega
      rw [Sequence.slice, hfrom, hto, List.take_length]
      rfl
    rw [hhead, htail]

/-- What is left of a text exceeds the limit by the five characters between its ends at most. -/
lemma length_withoutMiddle_le (limit : ℕ) (s : String) : (withoutMiddle limit s).length ≤ limit + 5 := by
  unfold withoutMiddle
  split_ifs with hfits
  · omega
  · have hmark : "\n...\n".length = 5 := by decide
    simp only [String.length_append, String.length_ofList, List.length_take, List.rtake, List.length_drop,
      String.length_toList, hmark]
    omega

/-- What is left of two reports, each below its heading. -/
def joined (limit : ℕ) (markdown json : String) : String :=
  "# report.md\n" ++ withoutMiddle limit markdown ++ "\n\n# report.json\n" ++ withoutMiddle limit json

/-- A text that does not begin with a blank can only lose blanks at its end. -/
lemma trim_eq_trimEnd {s : String} {c : Char} (hhead : s.toList.head? = some c) (hc : Text.isBlank c = false) :
    Text.trim s = Text.trimEnd s := by
  obtain ⟨rest, hs⟩ := List.head?_eq_some_iff.mp hhead
  rw [Text.trim, Text.trimEnd, hs, List.dropWhile_cons_of_neg (by simp [hc])]

lemma length_trimEnd_le (s : String) : (Text.trimEnd s).length ≤ s.length := by
  rw [Text.trimEnd, String.length_ofList, ← String.length_toList]
  exact (List.rdropWhile_prefix Text.isBlank s.toList).length_le

/-- **The text of two reports keeps all of a report that is within the limit, and the two ends of a longer one**, up to the
blanks at the end of the whole. What is left of each report exceeds the limit by five characters at most. -/
theorem text_keeps_ends {fs : Files} {limit : ℕ} (hlimit : 1 ≤ limit) {p q : Path} {markdown json : String}
    (hmarkdown : fs.readText p = .ok markdown) (hjson : fs.readText q = .ok json) :
    ∃ result, text fs limit ⟨some p, .one q⟩ = .ok result ∧
      result = Text.trimEnd (joined limit markdown json) ∧
      (withoutMiddle limit markdown).length ≤ limit + 5 ∧ (withoutMiddle limit json).length ≤ limit + 5 ∧
      result.length ≤ 2 * limit + 38 := by
  have hfirst := length_withoutMiddle_le limit markdown
  have hsecond := length_withoutMiddle_le limit json
  have hjoined : String.intercalate "\n\n" (part fs limit "report.md" p ++ part fs limit "report.json" q) =
      joined limit markdown json := by
    simp only [part, hmarkdown, hjson, shortened_eq_withoutMiddle hlimit]
    rw [← String.toList_inj]
    simp [joined]
  have hlength : (joined limit markdown json).length ≤ 2 * limit + 38 := by
    have hheadings : "# report.md\n".length = 12 ∧ "\n\n# report.json\n".length = 16 := by decide
    simp only [joined, String.length_append, hheadings]
    omega
  refine ⟨Text.trimEnd (joined limit markdown json), ?_, rfl, hfirst, hsecond, (length_trimEnd_le _).trans hlength⟩
  change Except.ok (Text.trim (String.intercalate "\n\n" (part fs limit "report.md" p ++ part fs limit "report.json" q))) = _
  rw [hjoined, trim_eq_trimEnd (c := '#') (by simp [joined]) (by decide)]

/-- A long report in Markdown, and one as JSON that ends in a blank. -/
def blankEnd : Files :=
  ⟨[(["m"], .file (Text.encode "abcdefgh") 0), (["j"], .file (Text.encode "x\n") 0)], []⟩

/-- The first report keeps its first two and its last three characters. -/
theorem text_blankEnd : text blankEnd 5 ⟨some (.ofString "m"), .one (.ofString "j")⟩ =
    .ok "# report.md\nab\n...\nfgh\n\n# report.json\nx" := by
  have hmarkdown : blankEnd.readText (.ofString "m") = .ok "abcdefgh" := eq_ok_of_toOption (by decide +kernel)
  have hjson : blankEnd.readText (.ofString "j") = .ok "x\n" := eq_ok_of_toOption (by decide +kernel)
  obtain ⟨result, htext, rfl, -⟩ := text_keeps_ends (by decide : 1 ≤ 5) hmarkdown hjson
  exact htext.trans (congrArg Except.ok (by decide +kernel))

/-- The second report is within the limit, and its last character is lost. -/
theorem not_included_whole : blankEnd.readText (.ofString "j") = .ok "x\n" ∧
    ∃ result, text blankEnd 5 ⟨some (.ofString "m"), .one (.ofString "j")⟩ = .ok result ∧
      ¬ "x\n".toList <:+: result.toList := by
  exact ⟨eq_ok_of_toOption (by decide +kernel), "# report.md\nab\n...\nfgh\n\n# report.json\nx",
    eq_ok_of_toOption (by decide +kernel), by decide⟩

end CodeAudit.Artifacts
