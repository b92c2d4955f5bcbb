import CodeAudit.Proofs.Analysis.Hotspot
import CodeAudit.Proofs.Analysis.Language
import CodeAudit.Proofs.Dependency.Export

/-!
# The hotspots in the report

The outline in the report takes a hotspot for a row of four values. An analysis hands its hotspots over as dictionaries
of four entries, so the outline takes the keys for the values, and every hotspot is shown by the same line. If the
hotspots were handed over as rows, the outline would show what it should.

## Main definitions

* `Hotspot.line` — what the outline should show of a hotspot.
* `Markdown.keyLine` — what it shows of the keys of a dictionary.

## Main results

* `Markdown.dependencyOutline_hotspots` — the outline of hotspots, from the lines on them.
* `Markdown.hotspots_shown_as_keys` — what the outline shows of an analysis.
-/

namespace CodeAudit

open List

/-- The path of a script has a point, and be it the path of the working directory. -/
lemma Modules.point_mem_of_isScript {top : Place} {path : Path} (h : IsScript (Files.pathOf top) path) :
    '.' ∈ path.toString.toList := by
  have hends : ['.', 'p', 'y'] <:+ Text.lowerAfter [] ((Files.pathOf top).join path).toString.toList := by
    unfold IsScript Language.ofEnding at h
    simp only at h
    split_ifs at h with hpy
    simpa [Text.endsWith_iff, Text.lower] using hpy
  obtain ⟨root, names⟩ := path
  by_cases hroot : root = ""
  · subst hroot
    rcases eq_nil_or_concat names with rfl | ⟨dirs, name, rfl⟩
    · decide
    · have hname : name.toList ⊆ (Path.toString ⟨"", dirs ++ [name]⟩).toList := by
        by_cases hdirs : dirs = []
        · simp [hdirs, Path.toString]
        · rw [Path.toList_toString_concat hdirs]
          exact fun c hc => by simp [hc]
      obtain ⟨front, hfront⟩ := Files.toString_pathOf_concat (top ++ dirs) name
      have hjoin : (Files.pathOf top).join ⟨"", dirs ++ [name]⟩ = Files.pathOf (top ++ dirs ++ [name]) := by
        simp [Path.join, Path.isAbsolute, Files.pathOf]
      rw [concat_eq_append, hjoin, hfront] at hends
      by_contra hnone
      refine Path.not_ending_lowerAfter ⟨by simp [Text.IsMark], by simp⟩ (fun hpoint => hnone ?_) hends
      rw [concat_eq_append]
      exact hname hpoint
  · have hjoin : (Files.pathOf top).join ⟨root, names⟩ = ⟨root, names⟩ := by
      simp [Path.join, Path.isAbsolute, hroot]
    rw [hjoin] at hends
    exact (Text.mem_lowerAfter_iff (by decide) _ _).mp (hends.subset mem_cons_self)

namespace Hotspot

/-- **What the outline should show of a hotspot**: its file, its score with two decimals, its number of edges, and its
complexity as an integer. -/
def line (h : Hotspot Float) : String :=
  "  - " ++ h.file ++ " — score " ++ Number.fixed 2 h.score ++ " (fan-in " ++ Markdown.number h.fanIn ++
    ", complexity " ++ Markdown.number ((Datum.floatToInt h.complexity).toOption.getD 0) ++ ")\n"

/-- A hotspot as a row of values. -/
def toRow (h : Hotspot Float) : Datum :=
  .tuple [.text h.file, .float h.score, .int h.fanIn, .float h.complexity]

end Hotspot

namespace Markdown

variable {h : Hotspot Float}

/-- What the outline shows of the keys of a dictionary. -/
def keyLine : String := "  - path — score 0.00 (fan-in 0, complexity 0)\n"

/-- The head of the part on hotspots. -/
def hotspotHead : String := "- Hotspots (fan-in × complexity):\n"

/-- A hotspot that is a dictionary is shown by its keys. -/
lemma hotspotLine_toDatum (h : Hotspot Float) : hotspotLine h.toDatum = .ok keyLine := by
  have hparts : hotspotParts h.toDatum = .ok (.text "path", .text "score", .text "fan_in", .text "complexity_sum") := rfl
  rw [hotspotLine, hparts]
  decide +kernel

/-- A hotspot that is a row is shown by its values. -/
lemma hotspotLine_toRow (hfanIn : h.fanIn < 2 ^ 53) : hotspotLine h.toRow = .ok h.line := by
  have hcount : count (.int h.fanIn) = h.fanIn := by
    rw [count, Lenient.anyInt_int hfanIn 0 (Nat.zero_le _)]
    rfl
  have hcomplexity : count (.float h.complexity) = (Datum.floatToInt h.complexity).toOption.getD 0 := by
    have hdefault : (Datum.int 0).toFloat = .ok (Number.ofInt 0) := by
      change Datum.intToFloat 0 = _
      exact Datum.intToFloat_eq_ok (Nat.zero_le _)
    simp only [count, Lenient.anyInt, Lenient.sequence?, Lenient.anyFloat, Datum.toFloat_float, hdefault,
      Lenient.instead, bind, Except.bind]
    cases Datum.floatToInt h.complexity <;> rfl
  have hparts : hotspotParts h.toRow = .ok (.text h.file, .float h.score, .int h.fanIn, .float h.complexity) := rfl
  rw [hotspotLine, hparts]
  simp only [bind, Except.bind, hcount, hcomplexity]
  rfl

/-- **The outline of hotspots**, from the lines on them: it goes on from the outline of none. -/
lemma dependencyOutline_hotspots {metrics : Datum} {front : String}
    (hfront : dependencyOutline metrics (.list []) = .ok front) {hotspots : List (Hotspot Float)} (hne : hotspots ≠ [])
    {value : Hotspot Float → Datum} {shown : Hotspot Float → String}
    (h : ∀ x ∈ hotspots, hotspotLine (value x) = .ok (shown x)) :
    dependencyOutline metrics (.list (hotspots.map value)) =
      .ok (front ++ hotspotHead ++ String.join ((hotspots.take 8).map shown)) := by
  have hpart : hotspotPart (.list (hotspots.map value)) =
      .ok (hotspotHead ++ String.join ((hotspots.take 8).map shown)) := by
    have hlines : ((hotspots.take 8).map value).mapM hotspotLine = .ok ((hotspots.take 8).map shown) := by
      rw [Outcome.mapM_eq_ok_iff, map_map, map_map]
      exact map_congr_left fun x hx => h x (mem_of_mem_take hx)
    have htruthy : (Datum.list (hotspots.map value)).truthy = true := by simpa [Datum.truthy] using hne
    simp only [hotspotPart, htruthy, firstHotspots, bind, Except.bind, ← map_take, hlines]
    rfl
  unfold dependencyOutline at hfront ⊢
  obtain ⟨m, hm, hfront⟩ := Outcome.bind_eq_ok.mp hfront
  obtain ⟨nodes, hnodes, hfront⟩ := Outcome.bind_eq_ok.mp hfront
  obtain ⟨fanIn, hfanIn, hfront⟩ := Outcome.bind_eq_ok.mp hfront
  obtain ⟨fanOut, hfanOut, hfront⟩ := Outcome.bind_eq_ok.mp hfront
  obtain ⟨cycles, hcycles, hfront⟩ := Outcome.bind_eq_ok.mp hfront
  obtain rfl := Except.ok.inj hfront
  simp only [hm, hnodes, hfanIn, hfanOut, hcycles, hpart, bind, Except.bind]
  simp [pure, Except.pure, String.append_assoc]

/-- A line with a point in its file is not what is shown of keys. -/
lemma line_ne_keyLine (hpoint : '.' ∈ h.file.toList) : h.line ≠ keyLine := by
  intro heq
  obtain ⟨rest, hline⟩ : ∃ rest, h.line.toList = "  - ".toList ++ (h.file.toList ++ ([' '] ++ '—' :: rest)) := by
    unfold Hotspot.line
    simp only [String.append_assoc, String.toList_append]
    exact ⟨_, rfl⟩
  have hkeys : keyLine.toList =
      "  - ".toList ++ ("path ".toList ++ '—' :: " score 0.00 (fan-in 0, complexity 0)\n".toList) := by
    decide
  rw [heq, hkeys, ← append_assoc h.file.toList] at hline
  have hline := append_cancel_left hline
  -- there is one dash only, which is not in the file then
  have hdash : '—' ∉ h.file.toList ++ [' '] := by
    have hcount := congrArg (List.count '—') hline
    rw [count_append, count_append, count_cons_self, count_cons_self,
      count_eq_zero_of_not_mem (by decide), count_eq_zero_of_not_mem (by decide)] at hcount
    exact count_eq_zero.mp (by omega)
  have hfile := (Sequence.append_cons_inj (by decide) hdash hline).1
  have hmem : '.' ∈ "path ".toList := hfile ▸ mem_append_left _ hpoint
  exact absurd hmem (by decide)

/-- A hotspot of an analysis is a script. -/
lemma point_mem_of_mem_hotspots {fs : Files} {root : Path} {request : Analysis.Request} {a : Analysis}
    (hrun : Analysis.run fs root request = .ok a) (hh : h ∈ a.hotspots) : '.' ∈ h.file.toList := by
  obtain ⟨⟨top, infos, hstages⟩, hhotspots⟩ := Analysis.stages_and_hotspots_of_run hrun
  rw [hhotspots] at hh
  obtain ⟨f, hf, hfile⟩ := Hotspot.mem_files_rank.mp (mem_map_of_mem (f := (·.file)) hh)
  obtain ⟨fn, hfn, -, hpath, -⟩ := Analysis.exists_function_of_mem_complexity hstages.detected hf
  obtain ⟨path, -, hscript, node, rfl⟩ := Modules.of_mem_flatMap_functions hstages.read hfn
  rw [← hfile, hpath]
  exact Modules.point_mem_of_isScript hscript

/-- **The outline shows hotspots by their keys.**

Let an analysis have hotspots, and let the outline of its metrics without hotspots be `front`. With the hotspots, the
outline goes on with a head and with the same line for each of the first eight hotspots. This line is not the one that
should be shown for any of them: it tells keys for a file and a score, and nothing but zeros. If the hotspots were handed
over as rows, and as long as doubles can hold the numbers of edges, the outline would go on with the lines that should be
shown, in the order of the hotspots.

**Proof sketch.** Taking a dictionary apart gives its keys, and none of them can be read as a number. The line that should
be shown names a script, and the path of a script has a point (`point_mem_of_mem_hotspots`), which the key does not have. -/
theorem hotspots_shown_as_keys {fs : Files} {root : Path} {request : Analysis.Request} {a : Analysis}
    (hrun : Analysis.run fs root request = .ok a) (hne : a.hotspots ≠ []) {metrics : Datum} {front : String}
    (hfront : dependencyOutline metrics (.list []) = .ok front) :
    dependencyOutline metrics a.hotspotsDatum =
        .ok (front ++ hotspotHead ++ String.join (List.replicate (min 8 a.hotspots.length) keyLine)) ∧
      (∀ h ∈ a.hotspots, h.line ≠ keyLine) ∧
      ((∀ h ∈ a.hotspots, h.fanIn < 2 ^ 53) → dependencyOutline metrics (.list (a.hotspots.map (·.toRow))) =
        .ok (front ++ hotspotHead ++ String.join ((a.hotspots.take 8).map (·.line)))) := by
  refine ⟨?_, fun h hh => line_ne_keyLine (point_mem_of_mem_hotspots hrun hh), fun hsmall => ?_⟩
  · have hkeys := dependencyOutline_hotspots hfront hne fun h _ => hotspotLine_toDatum h
    rwa [List.map_const', List.length_take] at hkeys
  · exact dependencyOutline_hotspots hfront hne fun h hh => hotspotLine_toRow (hsmall h hh)

/-- The hotspot of a complex script is shown by its keys. -/
theorem hotspots_shown_as_keys_branchy : ∃ a front,
    Analysis.run (Analysis.lone "a.py" (Text.encode Analysis.branchy)) ⟨"", []⟩ Analysis.allFiles = .ok a ∧
      a.hotspots ≠ [] ∧ dependencyOutline (.dict []) (.list []) = .ok front ∧
      dependencyOutline (.dict []) a.hotspotsDatum =
        .ok (front ++ hotspotHead ++ String.join (List.replicate (min 8 a.hotspots.length) keyLine)) := by
  obtain ⟨a, hrun, hfound⟩ := Analysis.exists_run_branchy
  have hne : a.hotspots ≠ [] := by
    intro hnone
    have hmem : "a.py" ∈ a.hotspots.map (·.file) := by
      rw [(Analysis.stages_and_hotspots_of_run hrun).2, Hotspot.mem_files_rank]
      obtain ⟨f, hf, heq⟩ := List.mem_map.mp (hfound ▸ List.mem_singleton_self ("a.py", (10 : ℤ)))
      exact ⟨f, hf, (Prod.ext_iff.mp heq).1⟩
    rw [hnone] at hmem
    cases hmem
  obtain ⟨front, hfront⟩ : ∃ front, dependencyOutline (.dict []) (.list []) = .ok front := ⟨_, rfl⟩
  exact ⟨a, front, hrun, hne, hfront, (hotspots_shown_as_keys hrun hne hfront).1⟩

end Markdown

end CodeAudit
