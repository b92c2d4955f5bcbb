import CodeAudit.Proofs.Analysis.Run
import CodeAudit.Proofs.Score.Gauge
import CodeAudit.Proofs.Sequence.Sort
import CodeAudit.Proofs.Text.Quoted

/-!
# Hotspots

The complexities found in each file are added up, and each file with complex functions gets a row: how many edges lead
into it, its sum, and a score, which is the product of its shares in the greatest number of edges and in the greatest
sum. The rows are sorted by score, edges, sum and text. As the text of a row tells its file, no two rows are level, so
the order in which the findings come does not matter.

Everything is shown at once for exact numbers and for doubles that hold the integers without loss.

## Main definitions

* `Hotspot.rowOf` — the row of a file.
* `Hotspot.IsRanking` — a ranking of findings.

## Main results

* `Hotspot.isRanking_rank`, `Hotspot.IsRanking.unique` — findings are ranked, and have only one
  ranking.
* `Hotspot.rank_isRanking` — the hotspots of an analysis.
-/

namespace CodeAudit

open List Sequence Modules

namespace Hotspot

open Quantity (whole Gauge)

variable {α β : Type} [Quantity α] [LinearOrder β]

variable {findings others : List ComplexityFinding}

/-! ## Tallies -/

/-- The files of findings, in the order in which they are first seen. -/
def files (findings : List ComplexityFinding) : List String :=
  (findings.map (·.file)).eraseDups

lemma mem_files {file : String} :
    file ∈ files findings ↔ ∃ f ∈ findings, f.file = file := by
  rw [files, mem_eraseDups, mem_map]

lemma nodup_files (findings : List ComplexityFinding) : (files findings).Nodup :=
  nodup_eraseDups _

/-- The sum of the complexities found in a file. -/
def total (findings : List ComplexityFinding) (file : String) : ℤ :=
  ((findings.filter (·.file == file)).map (·.value)).sum

lemma total_concat (findings : List ComplexityFinding) (f : ComplexityFinding) (file : String) :
    total (findings ++ [f]) file = total findings file + if f.file = file then f.value else 0 := by
  rw [total, filter_append, map_append, sum_append, ← total]
  by_cases h : f.file = file <;> simp [h]

lemma total_nonneg (h : ∀ f ∈ findings, 0 ≤ f.value) (file : String) :
    0 ≤ total findings file := by
  refine sum_nonneg fun n hn => ?_
  obtain ⟨f, hf, rfl⟩ := mem_map.mp hn
  exact h f (mem_of_mem_filter hf)

lemma total_of_not_mem {file : String} (h : file ∉ files findings) :
    total findings file = 0 := by
  have hnone : findings.filter (·.file == file) = [] := by
    simpa [filter_eq_nil_iff, mem_files] using h
  rw [total, hnone]
  rfl

/-- Adding to the sum of a file adds the file to those that have a sum. -/
lemma keys_addTo (file : String) (x : α) (sums : List (String × α)) :
    (addTo file x sums).map (·.1) =
      if file ∈ sums.map (·.1) then sums.map (·.1) else sums.map (·.1) ++ [file] := by
  induction sums with
  | nil => rfl
  | cons entry rest ih =>
    obtain ⟨name, sum⟩ := entry
    rw [addTo]
    by_cases h : name = file
    · simp [h]
    · simp only [beq_iff_eq, h, if_false, map_cons, ih, mem_cons, Ne.symm h, false_or]
      split_ifs <;> rfl

/-- The sums after adding to the sum of a file. -/
lemma mem_addTo {file : String} {x : α} {sums : List (String × α)} (hnodup : (sums.map (·.1)).Nodup)
    {entry : String × α} (h : entry ∈ addTo file x sums) :
    (entry.1 ≠ file ∧ entry ∈ sums) ∨ (∃ sum, (file, sum) ∈ sums ∧ entry = (file, Quantity.add sum x)) ∨
      (file ∉ sums.map (·.1) ∧ entry = (file, Quantity.add zero x)) := by
  induction sums with
  | nil => exact .inr (.inr ⟨by simp, mem_singleton.mp h⟩)
  | cons first rest ih =>
    obtain ⟨name, sum⟩ := first
    rw [map_cons, nodup_cons] at hnodup
    rw [addTo] at h
    by_cases hname : name = file
    · subst hname
      simp only [beq_self_eq_true, if_true, mem_cons] at h
      rcases h with rfl | h
      · exact .inr (.inl ⟨sum, mem_cons_self, rfl⟩)
      · exact .inl ⟨fun heq => hnodup.1 (mem_map.mpr ⟨entry, h, heq⟩), mem_cons_of_mem _ h⟩
    · simp only [beq_iff_eq, hname, if_false, mem_cons] at h
      rcases h with rfl | h
      · exact .inl ⟨hname, mem_cons_self⟩
      · rcases ih hnodup.2 h with ⟨hne, hmem⟩ | ⟨s, hmem, heq⟩ | ⟨hnot, heq⟩
        · exact .inl ⟨hne, mem_cons_of_mem _ hmem⟩
        · exact .inr (.inl ⟨s, mem_cons_of_mem _ hmem, heq⟩)
        · refine .inr (.inr ⟨?_, heq⟩)
          simpa [Ne.symm hname] using hnot

lemma sums_concat (findings : List ComplexityFinding) (f : ComplexityFinding) :
    (sums (findings ++ [f]) : List (String × α)) = addTo f.file (whole f.value) (sums findings) := by
  rw [sums, foldl_append]
  rfl

/-- **Each file of the findings has a sum.** -/
lemma keys_sums (findings : List ComplexityFinding) :
    (sums findings : List (String × α)).map (·.1) = files findings := by
  induction findings using reverseRecOn with
  | nil => rfl
  | append_singleton findings f ih =>
    rw [sums_concat, keys_addTo, ih, files, files, map_append, map_singleton, eraseDups_concat]
    simp only [mem_eraseDups]

/-- **The files of the hotspots are those of the findings.** -/
lemma mem_files_rank {fanIn : List (String × ℕ)} {file : String} :
    file ∈ (rank fanIn findings : List (Hotspot α)).map (·.file) ↔ ∃ f ∈ findings, f.file = file := by
  have hfiles : (rows fanIn (sums findings : List (String × α))).map (·.file) = files findings := by
    rw [rows, map_map, ← keys_sums (α := α)]
    rfl
  rw [rank, ((mergeSort_perm _ _).map _).mem_iff, hfiles, mem_files]

section Gauge

variable {key : α → β} {Sound Share : α → Prop} {Exact : ℤ → Prop} (g : Gauge key Sound Share Exact)

variable {findings : List ComplexityFinding}

include g

/-- A finding more is added to the sum of its file. -/
lemma sum_addTo {f : ComplexityFinding}
    (h : ∀ entry ∈ (sums findings : List (String × α)), entry.2 = whole (total findings entry.1))
    (hvalue : Exact f.value) (hbefore : ∀ file, Exact (total findings file))
    (hafter : ∀ file, Exact (total (findings ++ [f]) file)) :
    ∀ entry ∈ (sums (findings ++ [f]) : List (String × α)), entry.2 = whole (total (findings ++ [f]) entry.1) := by
  intro entry hentry
  rw [sums_concat] at hentry
  have hafter := hafter entry.1
  rw [total_concat] at hafter ⊢
  have hkeys : (sums findings : List (String × α)).map (·.1) = files findings := keys_sums findings
  rcases mem_addTo (hkeys ▸ nodup_files findings) hentry with ⟨hne, hmem⟩ | ⟨sum, hmem, rfl⟩ | ⟨hnot, rfl⟩
  · rw [if_neg (Ne.symm hne), add_zero]
    exact h entry hmem
  · rw [if_pos rfl] at hafter ⊢
    rw [← g.add_whole (hbefore _) hvalue hafter, ← h _ hmem]
  · rw [if_pos rfl, total_of_not_mem (hkeys ▸ hnot)] at hafter ⊢
    rw [← g.add_whole g.exact_zero hvalue hafter]
    rfl

/-- **The sum of a file** is the sum of all complexities found in it, whatever the order of the findings. -/
lemma sum_of_mem_sums (hvalues : ∀ f ∈ findings, 0 ≤ f.value)
    (htotals : ∀ file, Exact (total findings file)) :
    ∀ entry ∈ (sums findings : List (String × α)), entry.2 = whole (total findings entry.1) := by
  induction findings using reverseRecOn with
  | nil => exact fun entry hentry => absurd hentry not_mem_nil
  | append_singleton findings f ih =>
    have hvalue : 0 ≤ f.value := hvalues f (by simp)
    have hvalues : ∀ f ∈ findings, 0 ≤ f.value := fun f hf => hvalues f (by simp [hf])
    have hbefore : ∀ file, Exact (total findings file) := by
      intro file
      refine g.exact_of_le (total_nonneg hvalues file) ?_ (htotals file)
      rw [total_concat]
      split_ifs <;> omega
    have hexact : Exact f.value := by
      refine g.exact_of_le hvalue ?_ (htotals f.file)
      rw [total_concat, if_pos rfl]
      have := total_nonneg hvalues f.file
      omega
    exact sum_addTo g (ih hvalues hbefore) hexact hbefore htotals

/-- The greatest of exact integers. -/
lemma greatest_whole {ns : List ℤ} (h : ∀ n ∈ ns, Exact n) :
    greatest (ns.map whole : List α) = whole (ns.foldl max 0) := by
  have hrun : ∀ (ns : List ℤ) (n : ℤ), Exact n → (∀ k ∈ ns, Exact k) →
      (ns.map whole).foldl (fun m y : α => if Quantity.less m y then y else m) (whole n) = whole (ns.foldl max n) := by
    intro ns
    induction ns with
    | nil => intros; rfl
    | cons k ns ih =>
      intro n hn hns
      have hk := hns k mem_cons_self
      have hns : ∀ j ∈ ns, Exact j := fun j hj => hns j (mem_cons_of_mem _ hj)
      rw [map_cons, foldl_cons, foldl_cons, g.less_whole hn hk]
      rcases lt_or_ge n k with hlt | hge
      · rw [if_pos (by simpa using hlt), max_eq_right hlt.le]
        exact ih k hk hns
      · rw [if_neg (by simpa using hge), max_eq_left hge]
        exact ih n hn hns
  cases ns with
  | nil => rfl
  | cons n ns =>
    have hn := h n mem_cons_self
    rw [foldl_cons, max_eq_right (g.nonneg hn)]
    exact hrun ns n hn fun k hk => h k (mem_cons_of_mem _ hk)

end Gauge

/-! ## Rows -/

/-- The number of edges into a file. -/
def edgesInto (fanIn : List (String × ℕ)) (file : String) : ℕ :=
  (fanIn.lookup (Path.ofString file).stem).getD 0

/-- The greatest number of edges into a file. -/
def mostEdges (fanIn : List (String × ℕ)) : ℕ :=
  (fanIn.map (·.2)).foldl max 0

/-- The greatest sum of complexities. -/
def heaviest (findings : List ComplexityFinding) : ℤ :=
  ((files findings).map (total findings)).foldl max 0

/-- A greatest number to divide by: nothing counts as one. -/
def orOne (n : ℤ) : ℤ :=
  if n = 0 then 1 else n

/-- **The row of a file**: the product of its shares in the greatest number of edges and in the greatest sum of
complexities, then its number of edges and its sum of complexities. -/
def rowOf (fanIn : List (String × ℕ)) (findings : List ComplexityFinding) (file : String) : Hotspot α where
  file := file
  score := Quantity.mul (Quantity.div (whole (edgesInto fanIn file)) (whole (orOne (mostEdges fanIn))))
    (Quantity.div (whole (total findings file)) (whole (orOne (heaviest findings))))
  fanIn := edgesInto fanIn file
  complexity := whole (total findings file)

lemma edgesInto_eq (fanIn : List (String × ℕ)) (file : String) :
    ((fanIn.find? (·.1 == (Path.ofString file).stem)).map (·.2)).getD 0 = edgesInto fanIn file := by
  unfold edgesInto
  induction fanIn with
  | nil => rfl
  | cons c fanIn ih =>
    obtain ⟨name, count⟩ := c
    by_cases h : name = (Path.ofString file).stem
    · simp [h]
    · have hne : ((Path.ofString file).stem == name) = false := by simpa using Ne.symm h
      simpa [h, lookup_cons, hne] using ih

lemma edgesInto_le (fanIn : List (String × ℕ)) (file : String) : edgesInto fanIn file ≤ mostEdges fanIn := by
  rw [← edgesInto_eq]
  cases h : fanIn.find? (·.1 == (Path.ofString file).stem) with
  | none => exact Nat.zero_le _
  | some c => exact (foldl_max_le_iff.mp le_rfl).2 c.2 (mem_map_of_mem (mem_of_find?_eq_some h))

lemma total_le_heaviest (findings : List ComplexityFinding) (file : String) :
    total findings file ≤ heaviest findings := by
  obtain ⟨hzero, hmore⟩ := foldl_max_le_iff.mp (le_refl (heaviest findings))
  by_cases h : file ∈ files findings
  · exact hmore _ (mem_map_of_mem h)
  · rwa [total_of_not_mem h]

/-- Numbers of edges and findings whose sums are exact. -/
structure Fits (Exact : ℤ → Prop) (fanIn : List (String × ℕ)) (findings : List ComplexityFinding) : Prop where
  edges : ∀ c ∈ fanIn, Exact c.2
  values : ∀ f ∈ findings, 0 ≤ f.value
  totals : ∀ file, Exact (total findings file)

section Gauge

variable {key : α → β} {Sound Share : α → Prop} {Exact : ℤ → Prop} (g : Gauge key Sound Share Exact)
  {fanIn : List (String × ℕ)} {findings : List ComplexityFinding} (h : Fits Exact fanIn findings)

include g

lemma exact_orOne {n : ℤ} (h : Exact n) : Exact (orOne n) ∧ 0 < orOne n := by
  have := g.nonneg h
  unfold orOne
  split_ifs with hzero
  · exact ⟨g.exact_one, Int.zero_lt_one⟩
  · exact ⟨h, by omega⟩

lemma share_whole {m n : ℤ} (hn : Exact n) :
    share (whole m : α) (whole n) = Quantity.div (whole m) (whole (orOne n)) := by
  have hzero := g.equal_whole hn g.exact_zero
  rw [share, show (zero : α) = whole 0 from rfl, hzero, orOne]
  by_cases h : n = 0 <;> simp [h, whole]

include h in
lemma exact_mostEdges : Exact (mostEdges fanIn) := by
  rcases mem_cons.mp (foldl_max_mem (fanIn.map (·.2)) 0) with hzero | hmem
  · rw [mostEdges, hzero]
    exact g.exact_zero
  · obtain ⟨c, hc, heq⟩ := mem_map.mp hmem
    rw [mostEdges, ← heq]
    exact h.edges c hc

include h in
lemma exact_heaviest : Exact (heaviest findings) := by
  rcases mem_cons.mp (foldl_max_mem ((files findings).map (total findings)) 0) with hzero | hmem
  · rw [heaviest, hzero]
    exact g.exact_zero
  · obtain ⟨file, -, heq⟩ := mem_map.mp hmem
    rw [heaviest, ← heq]
    exact h.totals file

include h in
/-- The greatest of the sums is the greatest sum of complexities. -/
lemma greatest_sums : greatest ((sums findings : List (String × α)).map (·.2)) = whole (heaviest findings) := by
  have hsums : (sums findings : List (String × α)).map (·.2) = ((files findings).map (total findings)).map whole := by
    rw [← keys_sums (α := α), map_map, map_map]
    exact map_congr_left fun entry hentry => sum_of_mem_sums g h.values h.totals entry hentry
  rw [hsums, greatest_whole g (fun n hn => ?_), heaviest]
  obtain ⟨file, -, rfl⟩ := mem_map.mp hn
  exact h.totals file

include h in
/-- **The rows of findings**, one for each file. -/
lemma rows_sums : rows fanIn (sums findings : List (String × α)) = (files findings).map (rowOf fanIn findings) := by
  have hmost : (count ((fanIn.map (·.2)).foldl max 0) : α) = whole (mostEdges fanIn) := rfl
  rw [rows, ← keys_sums (α := α), map_map]
  simp only [greatest_sums g h, hmost, edgesInto_eq]
  refine map_congr_left fun entry hentry => ?_
  have hsum := sum_of_mem_sums g h.values h.totals entry hentry
  obtain ⟨file, sum⟩ := entry
  obtain rfl : sum = whole (total findings file) := hsum
  have hedges : (count (edgesInto fanIn file) : α) = whole (edgesInto fanIn file) := rfl
  simp only [hedges, share_whole g (exact_mostEdges g h), share_whole g (exact_heaviest g h)]
  rfl

include h in
/-- **The score of a row is a share.** -/
lemma share_score (file : String) : Share (rowOf fanIn findings file : Hotspot α).score := by
  have hpart : ∀ {m n : ℤ}, Exact n → 0 ≤ m → m ≤ n → Share (Quantity.div (whole m : α) (whole (orOne n))) := by
    intro m n hn hm hle
    obtain ⟨hexact, hpos⟩ := exact_orOne g hn
    refine g.share_div (g.exact_of_le hm hle hn) hexact ?_ hpos
    unfold orOne
    split_ifs <;> omega
  have hedges : ((edgesInto fanIn file : ℕ) : ℤ) ≤ mostEdges fanIn := by exact_mod_cast edgesInto_le fanIn file
  exact g.share_mul (hpart (exact_mostEdges g h) (Int.natCast_nonneg _) hedges)
    (hpart (exact_heaviest g h) (total_nonneg h.values file) (total_le_heaviest findings file))

end Gauge

/-! ## The order of rows -/

/-- **When a row precedes another one**: it has a greater score, else more edges, else a greater complexity, else a
smaller text. -/
inductive Precedes (a b : Hotspot α) : Prop
  | score (hscore : Quantity.less b.score a.score = true)
  | fanIn (hscore : Quantity.equal a.score b.score = true) (hfanIn : b.fanIn < a.fanIn)
  | complexity (hscore : Quantity.equal a.score b.score = true) (hfanIn : a.fanIn = b.fanIn)
      (hcomplexity : Quantity.less b.complexity a.complexity = true)
  | text (hscore : Quantity.equal a.score b.score = true) (hfanIn : a.fanIn = b.fanIn)
      (hcomplexity : Quantity.equal a.complexity b.complexity = true) (htext : a.text < b.text)

/-- The text of a row tells its file. -/
lemma file_of_text_eq {a b : Hotspot α} (h : a.text = b.text) : a.file = b.file := by
  have hlist := congrArg String.toList h
  simp only [text, String.toList_append, append_assoc] at hlist
  exact (Text.quoted_append_inj (append_cancel_left hlist)).1

/-- What rows are sorted by. -/
def sortKey (key : α → β) (h : Hotspot α) : βᵒᵈ ×ₗ ℕᵒᵈ ×ₗ βᵒᵈ ×ₗ String :=
  toLex (OrderDual.toDual (key h.score), toLex (OrderDual.toDual h.fanIn,
    toLex (OrderDual.toDual (key h.complexity), h.text)))

section Gauge

variable {key : α → β} {Sound Share : α → Prop} {Exact : ℤ → Prop} (g : Gauge key Sound Share Exact) {a b : Hotspot α}
  (ha : Sound a.score ∧ Sound a.complexity) (hb : Sound b.score ∧ Sound b.complexity)

include g ha hb

/-- The order of rows is that of what they are sorted by. -/
lemma precedes_iff : Precedes a b ↔ sortKey key a < sortKey key b := by
  simp only [sortKey, Prod.Lex.toLex_lt_toLex, OrderDual.toDual_lt_toDual, OrderDual.toDual_inj]
  constructor
  · intro h
    cases h with
    | score hs => exact .inl ((g.less_iff hb.1 ha.1).mp hs)
    | fanIn hs hf => exact .inr ⟨(g.equal_iff ha.1 hb.1).mp hs, .inl hf⟩
    | complexity hs hf hc =>
      exact .inr ⟨(g.equal_iff ha.1 hb.1).mp hs, .inr ⟨hf, .inl ((g.less_iff hb.2 ha.2).mp hc)⟩⟩
    | text hs hf hc ht =>
      exact .inr ⟨(g.equal_iff ha.1 hb.1).mp hs, .inr ⟨hf, .inr ⟨(g.equal_iff ha.2 hb.2).mp hc, ht⟩⟩⟩
  · rintro (hs | ⟨hs, hf | ⟨hf, hc | ⟨hc, ht⟩⟩⟩)
    · exact .score ((g.less_iff hb.1 ha.1).mpr hs)
    · exact .fanIn ((g.equal_iff ha.1 hb.1).mpr hs) hf
    · exact .complexity ((g.equal_iff ha.1 hb.1).mpr hs) hf ((g.less_iff hb.2 ha.2).mpr hc)
    · exact .text ((g.equal_iff ha.1 hb.1).mpr hs) hf ((g.equal_iff ha.2 hb.2).mpr hc) ht

/-- Rows are compared in their order. -/
lemma before_iff_precedes : before a b = true ↔ Precedes a b := by
  unfold before
  constructor
  · intro h
    split_ifs at h with hs hf hc
    · exact .score h
    · exact .fanIn (by simpa using hs) (by simpa using h)
    · exact .complexity (by simpa using hs) (by simpa using hf) h
    · exact .text (by simpa using hs) (by simpa using hf) (by simpa using hc) (by simpa using h)
  · intro h
    cases h with
    | score hs => simp [g.not_equal_of_less hb.1 ha.1 hs, hs]
    | fanIn hs hf => simp [hs, hf.ne', hf]
    | complexity hs hf hc => simp [hs, hf, g.not_equal_of_less hb.2 ha.2 hc, hc]
    | text hs hf hc ht => simp [hs, hf, hc, ht]

end Gauge

/-! ## Rankings -/

/-- **A ranking of findings**: a row for each of their files, scored between zero and one, in the order of rows. -/
structure IsRanking (fanIn : List (String × ℕ)) (findings : List ComplexityFinding) (hotspots : List (Hotspot α)) :
    Prop where
  nodup : (hotspots.map (·.file)).Nodup
  mem_iff : ∀ file, file ∈ hotspots.map (·.file) ↔ ∃ f ∈ findings, f.file = file
  row_eq : ∀ h ∈ hotspots, h = rowOf fanIn findings h.file
  bounds : ∀ h ∈ hotspots, Quantity.AtMost (whole 0) h.score ∧ Quantity.AtMost h.score (whole 1)
  ordered : hotspots.Pairwise Precedes

section Gauge

variable {key : α → β} {Sound Share : α → Prop} {Exact : ℤ → Prop} (g : Gauge key Sound Share Exact)
  {fanIn : List (String × ℕ)} {findings : List ComplexityFinding} (h : Fits Exact fanIn findings)

include g h

/-- The numbers of a row can be compared. -/
lemma sound_rowOf (file : String) : Sound (rowOf fanIn findings file : Hotspot α).score ∧
    Sound (rowOf fanIn findings file : Hotspot α).complexity :=
  ⟨g.sound_of_share (share_score g h file), g.sound_whole (h.totals file)⟩

/-- **Ranking sorts rows**, one for each file, which are in a linear order. -/
lemma rank_eq : (rank fanIn findings : List (Hotspot α)) =
    ((files findings).map (rowOf fanIn findings)).mergeSort fun a b => decide (sortKey key a ≤ sortKey key b) := by
  rw [rank, rows_sums g h]
  refine mergeSort_congr fun a ha b hb => ?_
  obtain ⟨file, -, rfl⟩ := mem_map.mp ha
  obtain ⟨file', -, rfl⟩ := mem_map.mp hb
  have hbefore := (before_iff_precedes g (sound_rowOf g h file') (sound_rowOf g h file)).trans
    (precedes_iff g (sound_rowOf g h file') (sound_rowOf g h file))
  rw [Bool.eq_iff_iff, Bool.not_eq_true', ← Bool.not_eq_true, hbefore, decide_eq_true_iff, not_lt]

/-- **Findings are ranked.** -/
lemma isRanking_rank : IsRanking fanIn findings (rank fanIn findings : List (Hotspot α)) := by
  have hrank := rank_eq (α := α) g h
  have hperm : (rank fanIn findings : List (Hotspot α)).Perm ((files findings).map (rowOf fanIn findings)) := by
    rw [hrank]
    exact List.mergeSort_perm _ _
  have hnames : ((rank fanIn findings : List (Hotspot α)).map (·.file)).Perm (files findings) := by
    simpa [Function.comp_def, rowOf] using hperm.map (·.file)
  have hnodup : ((rank fanIn findings : List (Hotspot α)).map (·.file)).Nodup :=
    hnames.nodup_iff.mpr (nodup_files findings)
  have hrow : ∀ r ∈ (rank fanIn findings : List (Hotspot α)), r = rowOf fanIn findings r.file := by
    intro r hr
    obtain ⟨file, -, rfl⟩ := List.mem_map.mp (hperm.mem_iff.mp hr)
    rfl
  have hsound : ∀ r ∈ (rank fanIn findings : List (Hotspot α)), Sound r.score ∧ Sound r.complexity := by
    intro r hr
    rw [hrow r hr]
    exact sound_rowOf g h r.file
  refine ⟨hnodup, fun _ => mem_files_rank, hrow, fun r hr => ?_, ?_⟩
  · have hshare : Share r.score := by
      rw [hrow r hr]
      exact share_score g h r.file
    obtain ⟨hlow, hhigh⟩ := g.bounds hshare
    exact ⟨(g.atMost_iff (g.sound_whole g.exact_zero) (hsound r hr).1).mpr hlow,
      (g.atMost_iff (hsound r hr).1 (g.sound_whole g.exact_one)).mpr hhigh⟩
  · have hrising : (rank fanIn findings : List (Hotspot α)).Pairwise (sortKey key · ≤ sortKey key ·) := by
      rw [hrank]
      exact (Sequence.isStable_mergeSort (sortKey key) _).rising
    -- rows of different files have different texts
    refine (hrising.and (List.pairwise_map.mp hnodup)).imp_of_mem fun {a b} ha hb hab => ?_
    refine (precedes_iff g (hsound a ha) (hsound b hb)).mpr (lt_of_le_of_ne hab.1 fun heq => hab.2 ?_)
    exact file_of_text_eq (congrArg (fun k => (ofLex (ofLex (ofLex k).2).2).2) heq)

/-- **Findings have only one ranking.** -/
lemma IsRanking.unique {hotspots hotspots' : List (Hotspot α)} (hranking : IsRanking fanIn findings hotspots)
    (hranking' : IsRanking fanIn findings hotspots') : hotspots = hotspots' := by
  have hrows : ∀ {rows : List (Hotspot α)}, IsRanking fanIn findings rows →
      rows = (rows.map (·.file)).map (rowOf fanIn findings) := by
    intro rows hrows
    rw [List.map_map]
    exact (List.map_id rows).symm.trans (List.map_congr_left hrows.row_eq)
  have hsound : ∀ {rows : List (Hotspot α)}, IsRanking fanIn findings rows →
      ∀ r ∈ rows, Sound r.score ∧ Sound r.complexity := by
    intro rows hrows r hr
    rw [hrows.row_eq r hr]
    exact sound_rowOf g h r.file
  have hfiles : (hotspots.map (·.file)).Perm (hotspots'.map (·.file)) :=
    (List.perm_ext_iff_of_nodup hranking.nodup hranking'.nodup).mpr
      fun file => (hranking.mem_iff file).trans (hranking'.mem_iff file).symm
  have hperm : hotspots.Perm hotspots' := by
    rw [hrows hranking, hrows hranking']
    exact hfiles.map _
  refine hperm.eq_of_pairwise (fun a b ha hb hab hba => ?_) hranking.ordered hranking'.ordered
  have ha := hsound hranking a ha
  have hb := hsound hranking' b hb
  exact absurd ((precedes_iff g hb ha).mp hba) ((precedes_iff g ha hb).mp hab).not_gt

end Gauge

lemma total_of_perm (h : others.Perm findings) :
    total others = total findings :=
  funext fun _ => ((h.filter _).map _).sum_eq

lemma heaviest_of_perm (h : others.Perm findings) :
    heaviest others = heaviest findings := by
  have hfiles : (files others).Perm (files findings) :=
    (perm_ext_iff_of_nodup (nodup_files _) (nodup_files _)).mpr fun file => by simp only [mem_files, h.mem_iff]
  rw [heaviest, heaviest, total_of_perm h]
  exact (hfiles.map _).foldl_eq 0

lemma Fits.of_perm {Exact : ℤ → Prop} {fanIn : List (String × ℕ)}
    (h : Fits Exact fanIn findings) (hperm : others.Perm findings) : Fits Exact fanIn others :=
  ⟨h.edges, fun f hf => h.values f (hperm.mem_iff.mp hf), by rw [total_of_perm hperm]; exact h.totals⟩

/-- **The order of the findings does not matter** for what is a ranking of them. -/
lemma IsRanking.of_perm {fanIn : List (String × ℕ)}
    {hotspots : List (Hotspot α)} (h : IsRanking fanIn others hotspots) (hperm : others.Perm findings) :
    IsRanking fanIn findings hotspots where
  nodup := h.nodup
  mem_iff file := by simp only [h.mem_iff, hperm.mem_iff]
  row_eq r hr := by
    have hrow := h.row_eq r hr
    rwa [rowOf, total_of_perm hperm, heaviest_of_perm hperm] at hrow
  bounds := h.bounds
  ordered := h.ordered

/-- The order of the findings does not matter. -/
lemma rank_of_perm {key : α → β} {Sound Share : α → Prop} {Exact : ℤ → Prop} (g : Gauge key Sound Share Exact)
    {fanIn : List (String × ℕ)} (h : Fits Exact fanIn findings)
    (hperm : others.Perm findings) : (rank fanIn others : List (Hotspot α)) = rank fanIn findings :=
  ((isRanking_rank g (h.of_perm hperm)).of_perm hperm).unique g h (isRanking_rank g h)

end Hotspot

/-! ## Analyses -/

/-- A function has a complexity of at least one. -/
lemma Modules.one_le_complexity {path : Path} {lines : List (List Char)} {node : Script.Node} {value : ℤ}
    (h : Complexity.complexity (Source.functionUnit path lines node) = .ok value) : 1 ≤ value := by
  have := Number.nonneg_of_truncate_ofInt (truncate_of_complexity h)
  omega

/-- A complexity that an analysis finds is at least one. -/
lemma Analysis.one_le_of_mem_complexity {fs : Files} {root : Path} {request : Analysis.Request} {a : Analysis}
    (h : Analysis.run fs root request = .ok a) {f : ComplexityFinding}
    (hf : f ∈ a.findings.complexity) : 1 ≤ f.value := by
  obtain ⟨top, infos, hstages⟩ := stages_of_run h
  obtain ⟨fn, hfn, hvalue, -⟩ := exists_function_of_mem_complexity hstages.detected hf
  obtain ⟨path, -, -, node, rfl⟩ := of_mem_flatMap_functions hstages.read hfn
  exact one_le_complexity hvalue

/-- A script of one function with nine branches. -/
def Analysis.branchy : String :=
  "def f(a):\n if a: a\n if a: a\n if a: a\n if a: a\n if a: a\n if a: a\n if a: a\n if a: a\n if a: a\n"

/-- An analysis of a script of one function with nine branches finds the function, if the rules warn at ten. -/
lemma Analysis.exists_run_branchy_of {request : Request} (husable : request.Usable)
    (hfiles : ∀ fs root, files fs root request = files fs root allFiles)
    (hten : (section? request.rules "complexity").ask "warn_at" (.int 10) = .ok (.int 10)) :
    ∃ a, Analysis.run (lone "a.py" (Text.encode branchy)) ⟨"", []⟩ request = .ok a ∧
      (a.findings.complexity.map fun f => (f.file, f.value)) = [("a.py", 10)] := by
  have htop : ((lone "a.py" (Text.encode branchy)).resolve ⟨"", []⟩).toOption = some [] := by decide +kernel
  have hlisted : ((files (lone "a.py" (Text.encode branchy)) (Files.pathOf []) allFiles).toOption.map fun infos =>
      infos.map (·.path)) = some [⟨"", ["a.py"]⟩] := by
    decide +kernel
  have hread : ((readAll (lone "a.py" (Text.encode branchy)) (Files.pathOf []) [⟨"", ["a.py"]⟩]).toOption.map fun ms =>
      (orNothing (Complexity.detect (.int 10) (ms.flatMap (·.functions)))).map fun f => (f.file, f.value)) =
        some [("a.py", 10)] := by
    decide +kernel
  obtain ⟨infos, hinfos, hpaths⟩ := Outcome.exists_ok_of_map hlisted
  obtain ⟨modules, hmodules, hfound⟩ := Outcome.exists_ok_of_map hread
  rw [← hpaths] at hmodules
  obtain ⟨a, hrun, hdetected⟩ :=
    exists_run_of_readAll husable (Outcome.eq_ok_of_toOption htop) ((hfiles _ _).trans hinfos) hmodules
  obtain ⟨warnAt, hwarnAt, -, hcomplexity, -⟩ := of_detect hdetected
  obtain rfl : Datum.int 10 = warnAt := Except.ok.inj (hten.symm.trans hwarnAt)
  exact ⟨a, hrun, hcomplexity ▸ hfound⟩

lemma Analysis.exists_run_branchy :
    ∃ a, Analysis.run (lone "a.py" (Text.encode branchy)) ⟨"", []⟩ allFiles = .ok a ∧
      (a.findings.complexity.map fun f => (f.file, f.value)) = [("a.py", 10)] :=
  exists_run_branchy_of (Request.usable_of_wanted ["*"]) (fun _ _ => rfl) rfl

namespace Hotspot

/-- **The hotspots of an analysis are a ranking of its findings.**

Let the complexities that were found not be negative. Over exact numbers, ranking them gives the one ranking there is: a
row for each file, with the sum of its complexities, its edges, and the product of its two shares, which lies between
zero and one; the rows are in the order of falling scores, edges and sums, and of rising texts. The order of the findings
does not matter. The same holds over doubles, if these hold the numbers of edges and the sums without loss. And the
hotspots of an analysis are ranked so from findings whose complexities are at least one.

**Proof sketch.** The sums are what they should be, by induction on the findings (`sum_of_mem_sums`), so each row is that
of its file (`rows_sums`). On such rows the comparison is that of a linear order (`precedes_iff`), in which different
files are never level, because the text of a row tells its file (`file_of_text_eq`). Hence a ranking is unique
(`IsRanking.unique`). A complexity is one more than a number of branches, which stays a number that is not negative on its
way through a double. -/
theorem rank_isRanking :
    (∀ (fanIn : List (String × ℕ)) (findings : List ComplexityFinding), (∀ f ∈ findings, 0 ≤ f.value) →
      (IsRanking fanIn findings (rank fanIn findings : List (Hotspot ℚ)) ∧
        ∀ others : List ComplexityFinding, others.Perm findings →
          (rank fanIn others : List (Hotspot ℚ)) = rank fanIn findings) ∧
      ((∀ c ∈ fanIn, c.2 < 2 ^ 53) → (∀ file, total findings file < 2 ^ 53) →
        IsRanking fanIn findings (rank fanIn findings : List (Hotspot Float)) ∧
        ∀ others : List ComplexityFinding, others.Perm findings →
          (rank fanIn others : List (Hotspot Float)) = rank fanIn findings)) ∧
    ∀ (fs : Files) (root : Path) (request : Analysis.Request) (a : Analysis), Analysis.run fs root request = .ok a →
      a.hotspots = rank a.metrics.fanIn a.findings.complexity ∧ ∀ f ∈ a.findings.complexity, 1 ≤ f.value := by
  refine ⟨fun fanIn findings hvalues => ⟨?_, fun hedges htotals => ?_⟩, fun fs root request a hrun => ?_⟩
  · have hfits : Fits (0 ≤ ·) fanIn findings := ⟨fun c _ => Int.natCast_nonneg _, hvalues, total_nonneg hvalues⟩
    exact ⟨isRanking_rank Quantity.gauge_rat hfits, fun others hperm => rank_of_perm Quantity.gauge_rat hfits hperm⟩
  · have hfits : Fits (fun n => 0 ≤ n ∧ n < 2 ^ 53) fanIn findings :=
      ⟨fun c hc => ⟨Int.natCast_nonneg _, by exact_mod_cast hedges c hc⟩, hvalues,
        fun file => ⟨total_nonneg hvalues file, htotals file⟩⟩
    exact ⟨isRanking_rank Quantity.gauge_float hfits, fun others hperm => rank_of_perm Quantity.gauge_float hfits hperm⟩
  · exact ⟨(Analysis.stages_and_hotspots_of_run hrun).2, fun f hf => Analysis.one_le_of_mem_complexity hrun hf⟩

/-- A finding on a function of a file. -/
def findingIn (file : String) (value : ℤ) : ComplexityFinding :=
  ⟨file ++ "::f:1#complexity", "", file, .int 1, .int 1, value, 10⟩

/-- Two files with one score: one has more edges, the other has a greater sum. -/
def twoFiles : List ComplexityFinding :=
  [findingIn "a.py" 10, findingIn "b.py" 20, findingIn "a.py" 30]

/-- The numbers of edges into two files. -/
def twoDegrees : List (String × ℕ) := [("a", 1), ("b", 2)]

/-- Findings on two files are ranked over doubles, in whatever order they come; and so are those of an analysis. -/
theorem rank_isRanking_twoFiles :
    (∀ f ∈ twoFiles, 0 ≤ f.value) ∧ (∀ c ∈ twoDegrees, c.2 < 2 ^ 53) ∧ (∀ file, total twoFiles file < 2 ^ 53) ∧
      IsRanking twoDegrees twoFiles (rank twoDegrees twoFiles : List (Hotspot Float)) ∧
      (rank twoDegrees twoFiles.reverse : List (Hotspot Float)) = rank twoDegrees twoFiles ∧
      ∃ a, Analysis.run (Analysis.lone "a.py" (Text.encode Analysis.branchy)) ⟨"", []⟩ Analysis.allFiles = .ok a ∧
        a.findings.complexity ≠ [] ∧ a.hotspots = rank a.metrics.fanIn a.findings.complexity := by
  have hvalues : ∀ f ∈ twoFiles, 0 ≤ f.value := by decide
  have hdegrees : ∀ c ∈ twoDegrees, c.2 < 2 ^ 53 := by decide
  have htotals : ∀ file, total twoFiles file < 2 ^ 53 := fun file =>
    (total_le_heaviest twoFiles file).trans_lt (by decide +kernel)
  obtain ⟨hlists, hruns⟩ := rank_isRanking
  obtain ⟨hranking, hperm⟩ := (hlists twoDegrees twoFiles hvalues).2 hdegrees htotals
  obtain ⟨a, hrun, hfound⟩ := Analysis.exists_run_branchy
  refine ⟨hvalues, hdegrees, htotals, hranking, hperm _ (List.reverse_perm _), a, hrun, ?_, (hruns _ _ _ a hrun).1⟩
  intro hnone
  rw [hnone] at hfound
  cases hfound

end Hotspot

end CodeAudit
