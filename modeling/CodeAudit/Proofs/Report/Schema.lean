import CodeAudit.Dependency.Normal
import CodeAudit.Proofs.Datum
import CodeAudit.Proofs.Score.Range
import CodeAudit.Report.Schema

/-!
# What passes the checks of an export

Checks are made side by side, so a record passes if all of its fields do. Sound findings pass and are written as they
were given, the normal form of the metrics of every graph passes, and the report can then be written as JSON.

## Main definitions

* `Datum.countEntries` — texts with integers as the entries of a dictionary.
* `DependencyMetrics.normalDatum` — metrics in normal form.

## Main results

* `ExportedReport.findings_of_check` — a report that passes tells the findings that were given.
* `ExportedReport.exists_check` — findings that can be exported pass, with metrics in normal form.
-/

namespace CodeAudit

open List Datum Json DependencyMetrics

/-! ## Counts -/

namespace Datum

/-- Texts with integers as the entries of a dictionary. -/
def countEntries (counts : List (String × ℤ)) : List (Datum × Datum) :=
  counts.map fun (k, n) => (.text k, .int n)

lemma dict_countEntries (counts : List (String × ℤ)) :
    dict (countEntries counts) = object (counts.map fun c => (c.1, .int c.2)) := by
  rw [countEntries, object, map_map]
  rfl

/-- Putting an integer under a text leaves texts with integers, each text once. -/
lemma exists_insert_countEntries {p : ℤ → Prop} (key : String) {n : ℤ} (hn : p n) {counts : List (String × ℤ)}
    (hnames : (counts.map (·.1)).Nodup) (hp : ∀ c ∈ counts, p c.2) :
    ∃ counts', insert (.text key) (.int n) (countEntries counts) = countEntries counts' ∧
      counts'.map (·.1) ⊆ key :: counts.map (·.1) ∧ (counts'.map (·.1)).Nodup ∧ ∀ c ∈ counts', p c.2 := by
  induction counts with
  | nil => exact ⟨[(key, n)], rfl, by simp, by simp, by simpa⟩
  | cons c counts ih =>
    rw [map_cons, nodup_cons] at hnames
    rw [forall_mem_cons] at hp
    change ∃ counts', insert _ _ ((.text c.1, .int c.2) :: countEntries counts) = _ ∧ _
    rw [insert]
    split_ifs with hkey
    · exact ⟨(c.1, n) :: counts, rfl, by simp, nodup_cons.mpr hnames, forall_mem_cons.mpr ⟨hn, hp.2⟩⟩
    · have hne : c.1 ≠ key := fun h => hkey (by rw [h, equals_text_iff])
      obtain ⟨counts', hcounts', hsub, hnodup, hall⟩ := ih hnames.2 hp.2
      refine ⟨c :: counts', by rw [hcounts']; rfl, by grind, nodup_cons.mpr ⟨fun hmem => ?_, hnodup⟩,
        forall_mem_cons.mpr ⟨hp.1, hall⟩⟩
      exact (mem_cons.mp (hsub hmem)).elim hne hnames.1

lemma exists_foldl_countEntries {α : Type} {p : ℤ → Prop} (key : α → String) (value : α → ℤ) (hp : ∀ x, p (value x))
    (xs : List α) : ∃ counts, xs.foldl (fun acc x => insert (.text (key x)) (.int (value x)) acc) [] =
      countEntries counts ∧ (counts.map (·.1)).Nodup ∧ ∀ c ∈ counts, p c.2 := by
  have hfold : ∀ counts : List (String × ℤ), (counts.map (·.1)).Nodup → (∀ c ∈ counts, p c.2) → ∃ counts',
      xs.foldl (fun acc x => insert (.text (key x)) (.int (value x)) acc) (countEntries counts) =
        countEntries counts' ∧ (counts'.map (·.1)).Nodup ∧ ∀ c ∈ counts', p c.2 := by
    induction xs with
    | nil => exact fun counts hnames hall => ⟨counts, rfl, hnames, hall⟩
    | cons x xs ih =>
      intro counts hnames hall
      obtain ⟨between, hbetween, -, hnames, hall⟩ := exists_insert_countEntries (key x) (hp x) hnames hall
      rw [foldl_cons, hbetween]
      exact ih between hnames hall
  exact hfold [] nodup_nil (by simp)

end Datum

/-! ## Checks -/

namespace Check

variable {α β : Type}

variable {check : Datum → Check β}

@[simp] lemma andThen_passed (x : α) (f : α → Check β) : (passed x).andThen f = f x := rfl

/-- A row of checks passes if all of them do. -/
lemma mapA_map_eq_passed {γ : Type} {check : α → Check β} {f : γ → α} {g : γ → β} {xs : List γ}
    (h : ∀ x ∈ xs, check (f x) = passed (g x)) : (xs.map f).mapA check = passed (xs.map g) := by
  induction xs with
  | nil => rfl
  | cons x xs ih =>
    rw [map_cons, mapA, h x mem_cons_self, ih fun y hy => h y (mem_cons_of_mem _ hy)]
    rfl

/-- Texts with integers are a dictionary of integers. -/
lemma dictionary_countEntries (counts : List (String × ℤ)) :
    dictionary whole (.dict (countEntries counts)) = passed counts := by
  change (countEntries counts).mapA (fun e => Prod.mk <$> text e.1 <*> whole e.2) = _
  refine (mapA_map_eq_passed (g := id) ?_).trans (congrArg passed (map_id counts))
  exact fun c _ => rfl

/-- The items of a list pass if all of them do. -/
lemma items_eq_passed {f : α → Datum} {g : α → β} {xs : List α}
    (h : ∀ x ∈ xs, check (f x) = passed (g x)) : items check (.list (xs.map f)) = passed (xs.map g) :=
  mapA_map_eq_passed h

/-- If the items of a list pass and are given back as they were, so is the list. -/
lemma exists_items {back : β → Datum} {xs : List Datum}
    (h : ∀ x ∈ xs, ∃ y, check x = passed y ∧ back y = x) :
    ∃ ys, items check (.list xs) = passed ys ∧ ys.map back = xs := by
  change ∃ ys, xs.mapA check = passed ys ∧ ys.map back = xs
  induction xs with
  | nil => exact ⟨[], rfl, rfl⟩
  | cons x xs ih =>
    obtain ⟨y, hy, hback⟩ := h x mem_cons_self
    obtain ⟨ys, hys, hbacks⟩ := ih fun z hz => h z (mem_cons_of_mem _ hz)
    refine ⟨y :: ys, ?_, by rw [map_cons, hback, hbacks]⟩
    rw [mapA, hy, hys]
    rfl

/-- The fields of a dictionary with texts as keys. -/
lemma fields_object (entries : List (String × Datum)) :
    fields (.object entries) = passed fun name => Datum.entry? (.object entries) name := by
  have hkeys : (Datum.named entries).all (fun e => e.1.kind == "str") = true := by
    rw [all_eq_true]
    intro e he
    obtain ⟨x, -, rfl⟩ := mem_map.mp he
    rfl
  change (if (Datum.named entries).all (fun e => e.1.kind == "str") = true then _ else _) = _
  rw [if_pos hkeys]
  rfl

end Check

/-! ## What can be written -/

namespace Json

/-- A list can be written exactly if its items can. -/
lemma unwritable?_list {items : List Datum} : unwritable? (.list items) = none ↔ ∀ d ∈ items, unwritable? d = none := by
  change unwritable?.inItems items = none ↔ _
  induction items with
  | nil => simp [unwritable?.inItems]
  | cons d items ih => rw [unwritable?.inItems, Option.or_eq_none_iff, ih, forall_mem_cons]

/-- A dictionary with texts as keys can be written exactly if its values can. -/
lemma unwritable?_object {entries : List (String × Datum)} :
    unwritable? (.object entries) = none ↔ ∀ e ∈ entries, unwritable? e.2 = none := by
  change unwritable?.inEntries (Datum.named entries) = none ↔ _
  induction entries with
  | nil => simp [unwritable?.inEntries, Datum.named]
  | cons e entries ih =>
    change unwritable?.inEntries ((.text e.1, e.2) :: Datum.named entries) = none ↔ _
    rw [unwritable?.inEntries, if_pos (by rfl), Option.or_eq_none_iff, ih, forall_mem_cons]

end Json

/-! ## Findings -/

open Check

namespace ScoredFinding

/-- A finding that can be exported: it is sound, a text names it, and what only it tells can be written. -/
structure Exportable (s : ScoredFinding Float) : Prop where
  sound : s.Sound
  id : ∃ id, s.id = .text id
  extra : ∀ e ∈ s.extra, unwritable? e.2 = none

variable {s : ScoredFinding Float}

/-- **A finding that can be exported passes, and is written as it was given.** -/
lemma check_toExport (h : s.Exportable) :
    ∃ f, ExportedFinding.check s.toExport = passed f ∧ f.toDatum = s.toExport := by
  obtain ⟨id, hid⟩ := h.id
  have hseverity : choice ["P0", "P1", "P2", "P3"] (.text s.severity.name) = passed s.severity.name := by
    cases s.severity <;> rfl
  have hscore : require (fun x => 0 ≤ x && x ≤ 1) (real (.float s.score)) = passed s.score := by
    change (if (decide (0 ≤ s.score) && decide (s.score ≤ 1)) = true then passed s.score else failed) = _
    rw [if_pos (by simp [h.sound.score])]
  have hline : ∀ {n : ℤ}, 1 ≤ n → lineNumber (.int n) = passed n := by
    intro n hn
    change (if decide (1 ≤ n) = true then passed n else failed) = _
    rw [if_pos (by simpa using hn)]
  refine ⟨⟨id, s.category.name, s.severity.name, s.score, s.title, s.file, s.firstLine, s.lastLine, some s.fix,
    some (Datum.named s.extra)⟩, ?_, ?_⟩
  · rw [ExportedFinding.check, toExport, fields_object, andThen_passed]
    simp only [entry?_object, coreEntries, hid]
    change ExportedFinding.mk <$> text (.text id) <*> text (.text s.category.name)
      <*> choice ["P0", "P1", "P2", "P3"] (.text s.severity.name)
      <*> require (fun x => 0 ≤ x && x ≤ 1) (real (.float s.score)) <*> text (.text s.title) <*> text (.text s.file)
      <*> lineNumber (.int s.firstLine) <*> lineNumber (.int s.lastLine)
      <*> some <$> text (.text s.fix) <*> some <$> entries (.object s.extra) = _
    rw [hseverity, hscore, hline h.sound.firstLine, hline h.sound.lastLine]
    rfl
  · simp only [ExportedFinding.toDatum, toExport, coreEntries, hid]
    rfl

lemma unwritable?_toExport (h : s.Exportable) : unwritable? s.toExport = none := by
  obtain ⟨id, hid⟩ := h.id
  rw [toExport, coreEntries, hid, unwritable?_object]
  simp [unwritable?, unwritable?_object.mpr h.extra]

end ScoredFinding

/-! ## Metrics -/

namespace DependencyMetrics

/-- Names with counts as rows. -/
def rankDatum (counts : List (String × ℤ)) : Datum :=
  .list (counts.map fun c => .tuple [.text c.1, .int c.2])

/-- Metrics in normal form. -/
def normalDatum (fanIn fanOut : List (String × ℤ)) (cycles : List (List String))
    (topFanIn topFanOut : List (String × ℤ)) : Datum :=
  .object
    [("fan_in", .dict (countEntries fanIn)), ("fan_out", .dict (countEntries fanOut)),
      ("cycles", rowsDatum cycles), ("top_fan_in", rankDatum topFanIn), ("top_fan_out", rankDatum topFanOut)]

/-- Degrees as counts. -/
def ofDegrees (degrees : List (String × ℕ)) : List (String × ℤ) :=
  degrees.map fun c => (c.1, (c.2 : ℤ))

lemma toDatum_eq_normalDatum (m : Metrics) : m.toDatum = normalDatum (ofDegrees m.fanIn) (ofDegrees m.fanOut) m.cycles
    (ofDegrees m.topFanIn) (ofDegrees m.topFanOut) := by
  simp [Metrics.toDatum, Metrics.countsDatum, Metrics.pairsDatum, normalDatum, ofDegrees, countEntries, rankDatum,
    rowsDatum, Datum.object, Function.comp_def]

lemma exists_normalCounts {p : ℤ → Prop} (hp : ∀ d, p ((Lenient.toInt d (.int 0)).toOption.getD 0))
    (entries : List (Datum × Datum)) : ∃ counts, normalCounts entries = countEntries counts ∧
      (counts.map (·.1)).Nodup ∧ ∀ c ∈ counts, p c.2 :=
  exists_foldl_countEntries (fun e : Datum × Datum => e.1.str)
    (fun e => (Lenient.toInt e.2 (.int 0)).toOption.getD 0) (fun e => hp e.2) entries

lemma exists_normalRows (counts : List (String × ℤ)) : ∃ rows, normalRows (rankDatum counts) = .ok (rankDatum rows) := by
  refine ⟨counts.map fun c => (c.1, (Lenient.toInt (.int c.2) (.int 0)).toOption.getD 0), ?_⟩
  change Except.ok (Datum.list ((counts.map fun c => .tuple [.text c.1, .int c.2]).map normalRow)) = _
  rw [rankDatum, map_map, map_map]
  exact congrArg _ (congrArg _ (map_congr_left fun c _ => rfl))

lemma normalCycles_rowsDatum (cycles : List (List String)) :
    normalCycles (rowsDatum cycles) = .ok (rowsDatum cycles) := by
  have hrow : ∀ d ∈ cycles.map (fun row => Datum.list (row.map .text)),
      (do return Datum.list ((← d.items).map fun x => .text x.str) : Except Fault Datum) = .ok (id d) := by
    intro d hd
    obtain ⟨row, -, rfl⟩ := mem_map.mp hd
    change Except.ok (Datum.list ((row.map Datum.text).map fun x => .text x.str)) = _
    rw [map_map]
    rfl
  rw [normalCycles, rowsDatum]
  change ((cycles.map _).mapM _ >>= fun rows => Except.ok (Datum.list rows)) = _
  rw [Outcome.mapM_eq_ok hrow, map_id]
  rfl

/-- The normal form of metrics that have all parts. -/
lemma normalize_of_lookup {entries fanIn fanOut : List (Datum × Datum)} {topFanIn topFanOut cycles : List Datum}
    {rowsIn rowsOut rows : Datum} (hin : Datum.lookup (.text "fan_in") entries = some (.dict fanIn))
    (hout : Datum.lookup (.text "fan_out") entries = some (.dict fanOut))
    (htopIn : Datum.lookup (.text "top_fan_in") entries = some (.list topFanIn))
    (htopOut : Datum.lookup (.text "top_fan_out") entries = some (.list topFanOut))
    (hcycles : Datum.lookup (.text "cycles") entries = some (.list cycles))
    (hrowsIn : normalRows (.list topFanIn) = .ok rowsIn) (hrowsOut : normalRows (.list topFanOut) = .ok rowsOut)
    (hrows : normalCycles (.list cycles) = .ok rows) :
    normalize (.object [("dep_metrics", .dict entries)]) = .ok (.dict (insertAll (Datum.named
      [("fan_in", .dict (normalCounts fanIn)), ("fan_out", .dict (normalCounts fanOut)), ("top_fan_in", rowsIn),
        ("top_fan_out", rowsOut), ("cycles", rows)]) entries)) := by
  have hfind : find (.object [("dep_metrics", .dict entries)]) = .ok (.dict entries) := by
    rw [find, ask_object]
    cases entries with
    | nil => cases hin
    | cons => rfl
  have hcopyable : (!copyable (.dict entries)) = false := rfl
  have hask : ∀ {name default d}, Datum.lookup (.text name) entries = some d →
      (Datum.dict entries).ask name default = .ok d := by
    intro name default d h
    change Except.ok ((Datum.lookup (.text name) entries).getD default) = _
    rw [h, Option.getD_some]
  simp only [normalize, hfind, hcopyable, hask hin, hask hout, hask htopIn, hask htopOut, hask hcycles,
    orElse_dict_nil, orElse_list_nil, entriesAs, hrowsIn, hrowsOut, hrows, bind, Except.bind, pure,
    Except.pure]
  rfl

/-- **The normal form of the metrics of a graph.** -/
lemma exists_normalize (m : Metrics) : ∃ fanIn fanOut topFanIn topFanOut,
    normalize (.object [("dep_metrics", m.toDatum)]) =
      .ok (normalDatum fanIn fanOut m.cycles topFanIn topFanOut) := by
  have hcounts := fun counts => exists_normalCounts (p := fun _ => True) (fun _ => trivial) (countEntries counts)
  obtain ⟨fanIn, hfanIn, -⟩ := hcounts (ofDegrees m.fanIn)
  obtain ⟨fanOut, hfanOut, -⟩ := hcounts (ofDegrees m.fanOut)
  obtain ⟨topFanIn, htopFanIn⟩ := exists_normalRows (ofDegrees m.topFanIn)
  obtain ⟨topFanOut, htopFanOut⟩ := exists_normalRows (ofDegrees m.topFanOut)
  have hlookup := entry?_object [("fan_in", .dict (countEntries (ofDegrees m.fanIn))),
    ("fan_out", .dict (countEntries (ofDegrees m.fanOut))), ("cycles", rowsDatum m.cycles),
    ("top_fan_in", rankDatum (ofDegrees m.topFanIn)), ("top_fan_out", rankDatum (ofDegrees m.topFanOut))]
  refine ⟨fanIn, fanOut, topFanIn, topFanOut, ?_⟩
  rw [toDatum_eq_normalDatum]
  refine (normalize_of_lookup (hlookup "fan_in") (hlookup "fan_out") (hlookup "top_fan_in") (hlookup "top_fan_out")
    (hlookup "cycles") htopFanIn htopFanOut (normalCycles_rowsDatum m.cycles)).trans ?_
  rw [hfanIn, hfanOut]
  simp [normalDatum, Datum.object, Datum.named, insertAll, Datum.insert, equals_text_iff]

end DependencyMetrics

/-- **Metrics in normal form pass.** -/
lemma ExportedMetrics.exists_check (fanIn fanOut : List (String × ℤ)) (cycles : List (List String))
    (topFanIn topFanOut : List (String × ℤ)) :
    ∃ m, ExportedMetrics.check (normalDatum fanIn fanOut cycles topFanIn topFanOut) = passed m := by
  have hcycles : items (items text) (rowsDatum cycles) = passed cycles := by
    have hrow : ∀ row ∈ cycles, items text (.list (row.map .text)) = passed row := fun row _ =>
      (items_eq_passed (α := String) (g := id) fun s _ => rfl).trans (congrArg passed (map_id row))
    exact (items_eq_passed (g := id) hrow).trans (congrArg passed (map_id cycles))
  have hrows : ∀ counts, items (items text) (rankDatum counts) =
      passed (counts.map fun c => [c.1, (Datum.int c.2).str]) := fun counts => items_eq_passed fun c _ => rfl
  refine ⟨⟨fanIn, fanOut, cycles, topFanIn.map fun c => [c.1, (Datum.int c.2).str],
    topFanOut.map fun c => [c.1, (Datum.int c.2).str]⟩, ?_⟩
  rw [ExportedMetrics.check, normalDatum, fields_object, andThen_passed]
  simp only [entry?_object]
  change ExportedMetrics.mk <$> dictionary whole (.dict (countEntries fanIn))
      <*> dictionary whole (.dict (countEntries fanOut)) <*> items (items text) (rowsDatum cycles)
      <*> items (items text) (rankDatum topFanIn)
      <*> items (items text) (rankDatum topFanOut) = _
  rw [dictionary_countEntries, dictionary_countEntries, hcycles, hrows, hrows]
  rfl

/-! ## Reports -/

namespace ExportedReport

variable {scored : List (ScoredFinding Float)}

/-- **What passed can be written**, if the findings can. -/
lemma unwritable?_toDatum {r : ExportedReport} (h : ∀ f ∈ r.findings, unwritable? f.toDatum = none) :
    unwritable? r.toDatum = none := by
  have hcounts : ∀ counts, unwritable? (countsDatum counts) = none := by
    intro counts
    obtain ⟨counts', hcounts', -⟩ :=
      exists_foldl_countEntries (p := fun _ => True) Prod.fst Prod.snd (fun _ => trivial) counts
    rw [countsDatum, insertAll, foldl_map]
    rw [hcounts', dict_countEntries, unwritable?_object, forall_mem_map]
    exact fun _ _ => rfl
  have hrows : ∀ rows, unwritable? (rowsDatum rows) = none := by
    intro rows
    rw [rowsDatum, unwritable?_list]
    intro d hd
    obtain ⟨row, -, rfl⟩ := mem_map.mp hd
    rw [unwritable?_list]
    intro d hd
    obtain ⟨s, -, rfl⟩ := mem_map.mp hd
    rfl
  have hfindings : unwritable? (.list (r.findings.map (·.toDatum))) = none := by
    rw [unwritable?_list, forall_mem_map]
    exact h
  have hfiles : unwritable? (.int r.filesScanned) = none := rfl
  simp [toDatum, ExportedMetrics.toDatum, unwritable?_object, hcounts, hrows, hfindings, hfiles]

/-- Findings that can be exported pass, and are written as they were given. -/
lemma exists_items_check (h : ∀ s ∈ scored, s.Exportable) : ∃ findings : List ExportedFinding,
      items ExportedFinding.check (.list (scored.map (·.toExport))) = passed findings ∧
      findings.map (·.toDatum) = scored.map (·.toExport) := by
  refine exists_items ?_
  rw [forall_mem_map]
  exact fun s hs => ScoredFinding.check_toExport (h s hs)

/-- **A report that passes tells the findings that were given**, in their order. -/
lemma findings_of_check (h : ∀ s ∈ scored, s.Exportable) {files languages metrics : Datum} {report : ExportedReport}
    (hcheck : check files languages (.list (scored.map (·.toExport))) metrics = .ok report) :
    report.findings.map (·.toDatum) = scored.map (·.toExport) := by
  obtain ⟨findings, hfindings, hdata⟩ := exists_items_check h
  obtain ⟨⟨files, languages⟩, -, hcheck⟩ := Outcome.bind_eq_ok.mp hcheck
  rw [hfindings] at hcheck
  cases hmetrics : ExportedMetrics.check metrics with
  | passed m =>
    rw [hmetrics] at hcheck
    obtain rfl := Except.ok.inj hcheck
    exact hdata
  | failed =>
    rw [hmetrics] at hcheck
    cases hcheck
  | broken e =>
    rw [hmetrics] at hcheck
    cases hcheck

/-- **Findings that can be exported pass, with metrics in normal form**, and can be written. -/
lemma exists_check (h : ∀ s ∈ scored, s.Exportable) (files : ℕ)
    (languages fanIn fanOut : List (String × ℤ)) (cycles : List (List String))
    (topFanIn topFanOut : List (String × ℤ)) :
    ∃ report, check (.int files) (.dict (countEntries languages)) (.list (scored.map (·.toExport)))
        (normalDatum fanIn fanOut cycles topFanIn topFanOut) = .ok report ∧
      writable report.toDatum = .ok (Json.pretty report.toDatum) := by
  obtain ⟨metrics, hmetrics⟩ := ExportedMetrics.exists_check fanIn fanOut cycles topFanIn topFanOut
  obtain ⟨findings, hfindings, hdata⟩ := exists_items_check h
  have hsummary : checkSummary (.int files) (.dict (countEntries languages)) = passed (↑files, languages) := by
    rw [checkSummary, dictionary_countEntries]
    change Prod.mk <$> (if decide (0 ≤ (files : ℤ)) = true then passed (files : ℤ) else failed) <*> _ = _
    rw [if_pos (by simp)]
    rfl
  refine ⟨⟨files, languages, findings, metrics⟩, ?_, ?_⟩
  · rw [check, hsummary, hfindings, hmetrics]
    rfl
  · have hwritable : ∀ d ∈ findings.map (·.toDatum), unwritable? d = none := by
      rw [hdata, forall_mem_map]
      exact fun s hs => ScoredFinding.unwritable?_toExport (h s hs)
    rw [writable, unwritable?_toDatum (forall_mem_map.mp hwritable)]

end ExportedReport

end CodeAudit
