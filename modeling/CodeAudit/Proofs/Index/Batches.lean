import CodeAudit.Proofs.Index.Replacement

/-!
# Documents added in batches

Documents are added batch by batch, each under a name with its number among all of them. The size of the batches cannot be
seen afterwards: whatever it is, the collection is the one that a single batch leaves. Names that were there keep their
positions, new names follow in the order of the documents, and what is stored under other names stays as it is.

## Main definitions

* `Collection.merged` — entries with rows of documents put among them.

## Main results

* `Collection.filter_putAll` — what is stored under other names stays as it is.
* `Shelf.add_batches_as_one` — documents added in batches of any size are added as in one batch.
-/

namespace CodeAudit

open List

namespace Collection

variable {c : Collection} {id : String} {d : Document}

variable {p : String → Bool} {rows : List (String × Document)}

/-! ## One document -/

/-- A document that is put under a name of the collection takes the position of the one before. -/
lemma entries_put_of_mem (hc : c.ids.Nodup) (hid : id ∈ c.ids) :
    (c.put id d).entries = c.entries.map fun x => (x.1, if x.1 = id then d else x.2) := by
  obtain ⟨entries⟩ := c
  change putIn id d entries = _
  simp only [ids] at hc hid ⊢
  induction entries with
  | nil => simp at hid
  | cons entry entries ih =>
    obtain ⟨i, e⟩ := entry
    obtain ⟨hi, hc⟩ := nodup_cons.mp hc
    by_cases heq : i = id
    · subst heq
      have hsame : entries.map (fun x => (x.1, if x.1 = i then d else x.2)) = entries := by
        refine (map_congr_left fun x hx => ?_).trans (map_id' entries)
        have hmem : x.1 ∈ entries.map Prod.fst := mem_map_of_mem hx
        have hne : x.1 ≠ i := fun h => hi (h ▸ hmem)
        rw [if_neg hne]
      simp [putIn, hsame]
    · have hid : id ∈ entries.map Prod.fst := (mem_cons.mp hid).resolve_left (Ne.symm heq)
      simp [putIn, heq, ih hc hid]

/-- A document that is put under a new name goes behind the others. -/
lemma entries_put_of_not_mem (hid : id ∉ c.ids) : (c.put id d).entries = c.entries ++ [(id, d)] := by
  obtain ⟨entries⟩ := c
  change putIn id d entries = _
  simp only [ids] at hid ⊢
  induction entries with
  | nil => rfl
  | cons entry entries ih =>
    obtain ⟨i, e⟩ := entry
    rw [map_cons, mem_cons, not_or] at hid
    simp [putIn, Ne.symm hid.1, ih hid.2]

/-- A document that is put under a name leaves what is stored under others as it is. -/
lemma filter_put (hid : p id = false) :
    (c.put id d).entries.filter (fun x => p x.1) = c.entries.filter fun x => p x.1 := by
  obtain ⟨entries⟩ := c
  change (putIn id d entries).filter _ = _
  induction entries with
  | nil => simp [putIn, hid]
  | cons entry entries ih =>
    obtain ⟨i, e⟩ := entry
    by_cases heq : i = id
    · simp [putIn, heq, hid]
    · simp [putIn, heq, filter_cons, ih]

/-! ## Several documents -/

/-- **Entries with rows of documents put among them**: names that are there keep their positions and get the documents of
the rows, new names follow. -/
def merged (entries rows : List (String × Document)) : List (String × Document) :=
  entries.map (fun x => (x.1, (rows.lookup x.1).getD x.2)) ++ rows.filter fun x => x.1 ∉ entries.map Prod.fst

/-- **What documents put under different names leave.**

**Proof sketch.** Induction on the rows. The first document takes a position that is there, or goes behind all others; the
rows after it do not have its name, so they leave it where it is. -/
lemma entries_putAll (hrows : (rows.map Prod.fst).Nodup) (hc : c.ids.Nodup) :
    (c.putAll rows).entries = merged c.entries rows := by
  induction rows generalizing c with
  | nil => simp [merged]
  | cons row rows ih =>
    obtain ⟨id, d⟩ := row
    obtain ⟨hid, hrows⟩ := nodup_cons.mp hrows
    have hnone : rows.lookup id = none := Sequence.lookup_eq_none_iff_not_mem.mpr hid
    have hlookup : ∀ x : String × Document, x.1 ≠ id → ((id, d) :: rows).lookup x.1 = rows.lookup x.1 := by
      intro x hx
      rw [lookup_cons, beq_eq_false_iff_ne.mpr hx]
    rw [putAll_cons]
    by_cases hmem : id ∈ c.ids
    · have hput := entries_put_of_mem (d := d) hc hmem
      have hids : (c.put id d).entries.map Prod.fst = c.entries.map Prod.fst := by simp [hput]
      rw [ih hrows (show ((c.put id d).entries.map Prod.fst).Nodup from hids ▸ hc), merged, merged, hids,
        filter_cons_of_neg (by simpa [ids] using hmem), hput, map_map]
      refine congrArg (· ++ _) (map_congr_left fun x hx => ?_)
      by_cases heq : x.1 = id
      · simp [heq, hnone]
      · simp [heq, hlookup x heq]
    · have hput := entries_put_of_not_mem (d := d) hmem
      have hids : (c.put id d).ids = c.ids ++ [id] := by simp [ids, hput]
      have hnodup : (c.put id d).ids.Nodup := by
        rw [hids]
        simpa using hc.concat hmem
      have hold : ∀ x ∈ c.entries, x.1 ≠ id := by
        rintro x hx rfl
        exact hmem (mem_map_of_mem hx)
      have hnew : rows.filter (fun x => x.1 ∉ (c.entries ++ [(id, d)]).map Prod.fst) =
          rows.filter fun x => x.1 ∉ c.entries.map Prod.fst := by
        refine filter_congr fun x hx => ?_
        have hx : x.1 ∈ rows.map Prod.fst := mem_map_of_mem hx
        have hne : x.1 ≠ id := fun h => hid (h ▸ hx)
        simp [hne]
      rw [ih hrows hnodup, merged, merged, hput, hnew, filter_cons_of_pos (by simpa [ids] using hmem),
        map_append, append_assoc]
      refine congrArg₂ (· ++ ·) (map_congr_left fun x hx => ?_) ?_
      · rw [hlookup x (hold x hx)]
      · simp [hnone]

/-- **What is stored under other names stays as it is.** -/
lemma filter_putAll (hrows : ∀ x ∈ rows, p x.1 = false) :
    (c.putAll rows).entries.filter (fun x => p x.1) = c.entries.filter fun x => p x.1 := by
  induction rows generalizing c with
  | nil => rfl
  | cons row rows ih =>
    obtain ⟨hid, hrows⟩ := forall_mem_cons.mp hrows
    rw [putAll_cons, ih hrows, filter_put hid]

end Collection

namespace Shelf

/-- **Documents added in batches are added as one.** Whatever a shelf holds and whatever the size of the batches, adding
documents succeeds and tells the names `doc_0`, `doc_1`, … in order, all of them different. It leaves the shelf as one
batch with all documents leaves it: names that were there keep their positions, new names follow in order. The documents
under all other names stay as they are, in their order, and so does every other collection of the client.

**Proof sketch.** The batches make up one row of running numbers (`add_eq`), and a row whose names are different leaves
the entries merged with it (`Collection.entries_putAll`). -/
theorem add_batches_as_one {s : Shelf} {c : Collection} (hc : s.client.collections[s.held]? = some c)
    (docs : List Document) {size : Datum} {k : ℤ} (hsize : size.toIndex = .ok k) (hk : 1 ≤ k) :
    ∃ next, s.add docs size = .ok ((List.range docs.length).map idOf, next) ∧
      ((List.range docs.length).map idOf).Nodup ∧
      next = s.addBatch (numbered 0 docs) ∧
      next.contents = c.putAll (numbered 0 docs) ∧
      (c.ids.Nodup → next.contents.entries = Collection.merged c.entries (numbered 0 docs)) ∧
      next.contents.entries.filter (fun x => x.1 ∉ (List.range docs.length).map idOf) =
        c.entries.filter (fun x => x.1 ∉ (List.range docs.length).map idOf) ∧
      ∀ n ≠ s.held, next.client.collections[n]? = s.client.collections[n]? := by
  have hnames := nodup_map_fst_numbered docs
  have hadd : s.add docs size = s.add docs (.int k) := by
    rw [add, add, hsize, show (Datum.int k).toIndex = .ok k from rfl]
  have hcontents : (s.addBatch (numbered 0 docs)).contents = c.putAll (numbered 0 docs) := by
    obtain ⟨hmade, -⟩ := List.getElem?_eq_some_iff.mp hc
    have hheld : s.client.collection s.held = c := by simp [Client.collection, hc]
    rw [← hheld]
    exact Client.collection_change_self hmade _
  refine ⟨s.addBatch (numbered 0 docs), ?_, map_fst_numbered docs ▸ hnames, rfl, hcontents, ?_, ?_, ?_⟩
  · rw [hadd, add_eq s docs (by omega), map_fst_numbered]
  · intro hids
    rw [hcontents, Collection.entries_putAll hnames hids]
  · rw [hcontents]
    refine Collection.filter_putAll (p := fun id => id ∉ (List.range docs.length).map idOf) fun x hx => ?_
    have hmem : x.1 ∈ (List.range docs.length).map idOf := by
      rw [← map_fst_numbered]
      exact List.mem_map_of_mem hx
    simp only [hmem, not_true_eq_false, decide_false]
  · intro n hn
    simp [addBatch, Client.change, hn.symm]

/-- A collection in which one of the names to come is taken. -/
def takenName : Shelf :=
  ⟨⟨[.empty, ⟨[("doc_1", noted "x" "a"), ("old", noted "y" "b")]⟩], some 0⟩, 1⟩

/-- Three documents in batches of two: one takes the position of its name, two go behind the others. -/
theorem add_takenName : ∃ next,
    takenName.add [noted "u" "c", noted "v" "c", noted "w" "c"] (.int 2) = .ok (["doc_0", "doc_1", "doc_2"], next) ∧
      next.contents.entries =
        [("doc_1", noted "v" "c"), ("old", noted "y" "b"), ("doc_0", noted "u" "c"), ("doc_2", noted "w" "c")] ∧
      next.contents.entries.filter (fun x => x.1 ∉ ["doc_0", "doc_1", "doc_2"]) = [("old", noted "y" "b")] := by
  obtain ⟨next, hadd, -, -, -, hmerged, hothers, -⟩ :=
    add_batches_as_one (s := takenName) (c := ⟨[("doc_1", noted "x" "a"), ("old", noted "y" "b")]⟩) rfl
      [noted "u" "c", noted "v" "c", noted "w" "c"] (show (Datum.int 2).toIndex = .ok 2 from rfl) (by norm_num)
  refine ⟨next, hadd, ?_, ?_⟩
  · rw [hmerged (by decide)]
    rfl
  · exact hothers.trans rfl

end Shelf

end CodeAudit
