import CodeAudit.Proofs.Dependency.Graph
import CodeAudit.Proofs.Report.Schema

/-!
# Metrics in normal form

Metrics in normal form stay as they are if they are brought into normal form again. The counts are what matters: each
is the integer part of a double, and such an integer survives the way through a double, however great it is.

## Main definitions

* `DependencyMetrics.Kept` — counts that stay as they are.
* `DependencyMetrics.IsNormal` — metrics in normal form.

## Main results

* `DependencyMetrics.isNormal_of_normalize`, `DependencyMetrics.normalize_of_isNormal` — what is brought into normal
  form is in it, and what is in it stays.
* `DependencyMetrics.normalize_idempotent` — the normal form of metrics.
-/

namespace CodeAudit

open Outcome Datum List

namespace Datum

/-- Putting the value under a key that is already there changes nothing. -/
lemma insert_of_lookup {key value : Datum} {entries : List (Datum × Datum)} (h : lookup key entries = some value) :
    insert key value entries = entries := by
  induction entries with
  | nil => cases h
  | cons e entries ih =>
    obtain ⟨k, v⟩ := e
    rw [lookup] at h
    rw [insert]
    split_ifs at h ⊢
    · rw [Option.some.inj h]
    · rw [ih h]

end Datum

namespace DependencyMetrics

variable {counts : List (String × ℤ)}

/-! ## Counts -/

/-- The count for which a value stands. -/
def countOf (d : Datum) : ℤ :=
  (Lenient.toInt d (.int 0)).toOption.getD 0

/-- **A count that stays as it is.** -/
def Kept (n : ℤ) : Prop :=
  countOf (.int n) = n

lemma kept_of_floatToInt {x : Float} {n : ℤ} (h : floatToInt x = .ok n) : Kept n := by
  have htruncate : Number.truncate x = .ok n := by
    unfold floatToInt at h
    split at h
    · rwa [← Except.ok.inj h]
    · cases h
    · cases h
  have hfloat : intToFloat n = .ok (Number.ofInt n) :=
    intToFloat_eq_ok (by have := natAbs_le_of_floatToInt h; omega)
  have hint : toIntViaFloat (.int n) = .ok n := by
    change (intToFloat n).bind floatToInt = _
    rw [hfloat]
    change floatToInt (Number.ofInt n) = _
    rw [floatToInt, Number.truncate_ofInt_of_truncate htruncate]
  change (Lenient.instead (toIntViaFloat (.int n)) _).toOption.getD 0 = n
  rw [hint]
  rfl

lemma kept_zero : Kept 0 := kept_of_floatToInt (x := 0) (by decide +kernel)

/-- **Every count that conversion gives stays as it is.** -/
lemma kept_countOf (d : Datum) : Kept (countOf d) := by
  have hvia : ∀ d n, toIntViaFloat d = .ok n → Kept n := by
    intro d n h
    obtain ⟨x, -, hx⟩ := bind_eq_ok.mp h
    exact kept_of_floatToInt hx
  have hinstead : ∀ r : Except Fault ℤ, (∀ n, r = .ok n → Kept n) →
      Kept ((Lenient.instead r (toInt (.int 0))).toOption.getD 0) := by
    intro r hr
    cases r with
    | ok n => exact hr n rfl
    | error f => exact kept_zero
  rw [countOf, Lenient.toInt]
  refine hinstead _ fun n hn => ?_
  split at hn
  · rename_i xs _
    cases htelling : Lenient.telling? xs with
    | none =>
      rw [htelling] at hn
      obtain rfl := Except.ok.inj hn
      exact kept_zero
    | some x =>
      rw [htelling] at hn
      exact hvia x n hn
  · exact hvia d n hn

/-- **Small numbers stay as they are.** -/
lemma kept_of_lt {n : ℕ} (h : n < 2 ^ 53) : Kept n :=
  kept_of_floatToInt (x := Number.ofInt n) (by rw [floatToInt, Number.truncate_ofInt h])

/-- **Names with counts stay as they are**, if no name comes twice. -/
lemma normalCounts_countEntries (hnames : (counts.map (·.1)).Nodup)
    (hkept : ∀ c ∈ counts, Kept c.2) : normalCounts (countEntries counts) = countEntries counts := by
  have hfold : ∀ first rest : List (String × ℤ), ((first ++ rest).map (·.1)).Nodup → (∀ c ∈ rest, Kept c.2) →
      (countEntries rest).foldl (fun acc e => Datum.insert (.text e.1.str) (.int (countOf e.2)) acc)
        (countEntries first) = countEntries (first ++ rest) := by
    intro first rest hnames hkept
    induction rest generalizing first with
    | nil => simp [countEntries]
    | cons c rest ih =>
      have hnew : c.1 ∉ (first.map fun c => (c.1, Datum.int c.2)).map (·.1) := by
        simp only [map_append, map_cons, nodup_append, map_map] at hnames ⊢
        intro hmem
        exact hnames.2.2 _ hmem _ mem_cons_self rfl
      have hinsert : Datum.insert (.text c.1) (.int (countOf (.int c.2))) (countEntries first) =
          countEntries (first ++ [c]) := by
        rw [hkept c mem_cons_self]
        simpa [countEntries, Datum.named, Function.comp_def] using insert_named hnew (.int c.2)
      change (countEntries rest).foldl _ (Datum.insert (.text c.1) (.int (countOf (.int c.2))) _) = _
      rw [hinsert, ih (first ++ [c]) (by simpa using hnames) fun d hd => hkept d (mem_cons_of_mem _ hd),
        append_assoc, singleton_append]
  exact hfold [] counts hnames hkept

/-! ## Rows and cycles -/

/-- A row is a name and a count that stays as it is. -/
lemma exists_normalRow (row : Datum) : ∃ c : String × ℤ, normalRow row = .tuple [.text c.1, .int c.2] ∧ Kept c.2 := by
  unfold normalRow
  split
  · exact ⟨(_, _), rfl, kept_countOf _⟩
  · exact ⟨(_, _), rfl, kept_zero⟩

lemma exists_of_normalRows {rows r : Datum} (h : normalRows rows = .ok r) :
    ∃ counts, r = rankDatum counts ∧ ∀ c ∈ counts, Kept c.2 := by
  choose part hpart hkept using exists_normalRow
  obtain ⟨items, -, h⟩ := bind_eq_ok.mp h
  obtain rfl := Except.ok.inj h
  refine ⟨items.map part, ?_, by simpa using fun row _ => hkept row⟩
  rw [rankDatum, map_map]
  exact congrArg _ (map_congr_left fun row _ => hpart row)

lemma normalRows_rankDatum (h : ∀ c ∈ counts, Kept c.2) :
    normalRows (rankDatum counts) = .ok (rankDatum counts) := by
  change Except.ok (Datum.list ((counts.map fun c => .tuple [.text c.1, .int c.2]).map normalRow)) = _
  rw [rankDatum, map_map]
  refine congrArg _ (congrArg _ (map_congr_left fun c hc => ?_))
  change Datum.tuple [.text c.1, .int (countOf (.int c.2))] = _
  rw [h c hc]

lemma exists_of_normalCycles {cycles r : Datum} (h : normalCycles cycles = .ok r) : ∃ rows, r = rowsDatum rows := by
  obtain ⟨items, -, h⟩ := bind_eq_ok.mp h
  obtain ⟨rows, hrows, h⟩ := bind_eq_ok.mp h
  obtain rfl := Except.ok.inj h
  have hmem : ∀ row ∈ rows, row ∈ Set.range fun names : List String => Datum.list (names.map .text) := by
    intro row hrow
    obtain ⟨c, -, hc⟩ := exists_of_mem_mapM hrows hrow
    obtain ⟨xs, -, hc⟩ := bind_eq_ok.mp hc
    refine ⟨xs.map (·.str), ?_⟩
    change Datum.list _ = row
    rw [← Except.ok.inj hc, map_map]
    rfl
  obtain ⟨names, rfl⟩ : rows ∈ Set.range (List.map fun names : List String => Datum.list (names.map .text)) := by
    rw [Set.range_list_map]
    exact hmem
  exact ⟨names, rfl⟩

/-! ## Normal form -/

/-- Under a name stand names with counts that stay as they are, each name once. -/
def CountsAt (m : Datum) (name : String) : Prop :=
  ∃ counts, m.entry? name = some (.dict (countEntries counts)) ∧ (counts.map (·.1)).Nodup ∧
    ∀ c ∈ counts, Kept c.2

/-- Under a name stand rows of a name and a count that stays as it is. -/
def RowsAt (m : Datum) (name : String) : Prop :=
  ∃ counts, m.entry? name = some (rankDatum counts) ∧ ∀ c ∈ counts, Kept c.2

/-- **Metrics in normal form.** -/
structure IsNormal (m : Datum) : Prop where
  fanIn : CountsAt m "fan_in"
  fanOut : CountsAt m "fan_out"
  topFanIn : RowsAt m "top_fan_in"
  topFanOut : RowsAt m "top_fan_out"
  cycles : ∃ cycles, m.entry? "cycles" = some (rowsDatum cycles)

/-- **What is brought into normal form is in it.** -/
lemma isNormal_of_normalize {result m : Datum} (h : normalize result = .ok m) : IsNormal m := by
  rw [normalize] at h
  obtain ⟨metrics, -, h⟩ := bind_eq_ok.mp h
  split at h
  · cases h
  obtain ⟨_, -, h⟩ := bind_eq_ok.mp h
  simp only [bind_eq_ok] at h
  obtain ⟨_, -, _, -, _, -, _, -, fanIn, -, fanOut, -, entries, -, rowsIn, hrowsIn, rowsOut, hrowsOut, rows, hrows, h⟩
    := h
  obtain rfl := Except.ok.inj h
  have hlookup := fun name => lookup_insertAll_named name [("fan_in", .dict (normalCounts fanIn)),
    ("fan_out", .dict (normalCounts fanOut)), ("top_fan_in", rowsIn), ("top_fan_out", rowsOut), ("cycles", rows)] entries
  obtain ⟨ins, hins, hkeptIns⟩ := exists_normalCounts kept_countOf fanIn
  obtain ⟨outs, houts, hkeptOuts⟩ := exists_normalCounts kept_countOf fanOut
  obtain ⟨topIn, rfl, hkeptTopIn⟩ := exists_of_normalRows hrowsIn
  obtain ⟨topOut, rfl, hkeptTopOut⟩ := exists_of_normalRows hrowsOut
  obtain ⟨cycles, rfl⟩ := exists_of_normalCycles hrows
  rw [hins, houts] at hlookup ⊢
  exact ⟨⟨ins, hlookup "fan_in", hkeptIns⟩, ⟨outs, hlookup "fan_out", hkeptOuts⟩,
    ⟨topIn, hlookup "top_fan_in", hkeptTopIn⟩, ⟨topOut, hlookup "top_fan_out", hkeptTopOut⟩, cycles, hlookup "cycles"⟩

/-- **What is in normal form stays as it is.** -/
lemma normalize_of_isNormal {m : Datum} (h : IsNormal m) : normalize (.object [("dep_metrics", m)]) = .ok m := by
  obtain ⟨⟨ins, hins, hinsNames, hinsKept⟩, ⟨outs, houts, houtsNames, houtsKept⟩, ⟨topIn, htopIn, htopInKept⟩,
    ⟨topOut, htopOut, htopOutKept⟩, cycles, hcycles⟩ := h
  cases m with
  | dict entries =>
    rw [normalize_of_lookup hins houts htopIn htopOut hcycles (normalRows_rankDatum htopInKept)
      (normalRows_rankDatum htopOutKept) (normalCycles_rowsDatum cycles), normalCounts_countEntries hinsNames hinsKept,
      normalCounts_countEntries houtsNames houtsKept]
    change Except.ok (Datum.dict (Datum.insert (.text "cycles") _ (Datum.insert (.text "top_fan_out") _
      (Datum.insert (.text "top_fan_in") _ (Datum.insert (.text "fan_out") _
        (Datum.insert (.text "fan_in") _ entries)))))) = _
    rw [insert_of_lookup hins, insert_of_lookup houts, insert_of_lookup htopIn,
      insert_of_lookup htopOut, insert_of_lookup hcycles]
  | _ => cases hins

/-- The metrics of a graph are in normal form, if no degree is too great. -/
lemma isNormal_metrics {g : Graph} (hnodes : g.nodes.Nodup) (hdegrees : ∀ c ∈ g.fanIn ++ g.fanOut, c.2 < 2 ^ 53) :
    IsNormal g.metrics.toDatum := by
  have hkept : ∀ {degrees : List (String × ℕ)}, (∀ c ∈ degrees, c ∈ g.fanIn ++ g.fanOut) →
      ∀ c ∈ ofDegrees degrees, Kept c.2 := by
    intro degrees hsub
    rw [ofDegrees, forall_mem_map]
    exact fun c hc => kept_of_lt (hdegrees c (hsub c hc))
  have hnames : ∀ side : String × String → String,
      ((ofDegrees (g.nodes.map fun n => (n, g.edges.countP (side · == n)))).map (·.1)).Nodup := by
    intro side
    simpa [ofDegrees, Function.comp_def] using hnodes
  have htop : ∀ {degrees c}, c ∈ Graph.top degrees → c ∈ degrees := fun hc =>
    mem_mergeSort.mp (mem_of_mem_take hc)
  have hlookup := entry?_object [("fan_in", .dict (countEntries (ofDegrees g.fanIn))),
    ("fan_out", .dict (countEntries (ofDegrees g.fanOut))), ("cycles", rowsDatum g.metrics.cycles),
    ("top_fan_in", rankDatum (ofDegrees (Graph.top g.fanIn))),
    ("top_fan_out", rankDatum (ofDegrees (Graph.top g.fanOut)))]
  rw [toDatum_eq_normalDatum]
  exact ⟨⟨_, hlookup "fan_in", hnames (·.2), hkept fun c hc => mem_append_left _ hc⟩,
    ⟨_, hlookup "fan_out", hnames (·.1), hkept fun c hc => mem_append_right _ hc⟩,
    ⟨_, hlookup "top_fan_in", hkept fun c hc => mem_append_left _ (htop hc)⟩,
    ⟨_, hlookup "top_fan_out", hkept fun c hc => mem_append_right _ (htop hc)⟩,
    _, hlookup "cycles"⟩

/-- **The normal form of metrics.** What normalization gives has names with counts, rows of a name and a count, and
cycles of names, and normalizing it again gives it back, with its entries in the same order. The metrics of a graph are
given back as they are, if no degree is too great for a double. -/
theorem normalize_idempotent :
    (∀ result m, normalize result = .ok m → normalize (.object [("dep_metrics", m)]) = .ok m ∧ IsNormal m) ∧
      ∀ edges, (∀ c ∈ (Graph.ofEdges edges).fanIn ++ (Graph.ofEdges edges).fanOut, c.2 < 2 ^ 53) →
        normalize (.object [("dep_metrics", (Graph.ofEdges edges).metrics.toDatum)]) =
          .ok (Graph.ofEdges edges).metrics.toDatum := by
  refine ⟨fun result m h => ?_, fun edges hdegrees => ?_⟩
  · have hnormal := isNormal_of_normalize h
    exact ⟨normalize_of_isNormal hnormal, hnormal⟩
  · exact normalize_of_isNormal (isNormal_metrics (Graph.wellFormed_ofEdges edges).nodes hdegrees)

/-- Metrics with a row that is only a name, and with two keys that are the same as texts. -/
def messy : List (String × Datum) :=
  [("top_fan_in", .list [.text "x"]), ("fan_in", .dict [(.int 1, .list []), (.text "1", .null)]),
    ("fan_out", .dict []), ("other", .null), ("top_fan_out", .list []), ("cycles", .list [])]

/-- The same metrics in normal form. -/
def tidy : List (String × Datum) :=
  [("top_fan_in", rankDatum [("x", 0)]), ("fan_in", .dict (countEntries [("1", 0)])),
    ("fan_out", .dict []), ("other", .null), ("top_fan_out", .list []), ("cycles", .list [])]

theorem normalize_idempotent_messy :
    (normalize (.object [("dep_metrics", .object messy)]) = .ok (.object tidy) ∧
        normalize (.object [("dep_metrics", .object tidy)]) = .ok (.object tidy)) ∧
      normalize (.object [("dep_metrics", (Graph.ofEdges [("a", "b")]).metrics.toDatum)]) =
        .ok (Graph.ofEdges [("a", "b")]).metrics.toDatum := by
  have hcounts : normalCounts [(.int 1, .list []), (.text "1", .null)] = Datum.countEntries [("1", 0)] := by
    change Datum.insert (.text "1") (.int 0) [(.text "1", .int 0)] = _
    simp [Datum.insert, Datum.equals_text_iff, Datum.countEntries]
  have hlookup := Datum.entry?_object messy
  have h : normalize (.object [("dep_metrics", .object messy)]) = .ok (.object tidy) := by
    refine (normalize_of_lookup (hlookup "fan_in") (hlookup "fan_out") (hlookup "top_fan_in") (hlookup "top_fan_out")
      (hlookup "cycles") rfl rfl (normalCycles_rowsDatum [])).trans ?_
    rw [hcounts]
    simp [messy, tidy, Datum.object, Datum.named, Datum.insertAll, Datum.insert, Datum.equals_text_iff, normalCounts,
      normalRow, Lenient.sequence?, Datum.str, rankDatum, rowsDatum]
  exact ⟨⟨h, (normalize_idempotent.1 _ _ h).1⟩, normalize_idempotent.2 _ (by decide +kernel)⟩

end DependencyMetrics

end CodeAudit
