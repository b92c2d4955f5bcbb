import CodeAudit.Proofs.Index.Shelf
import CodeAudit.Proofs.Sequence.Sort

/-!
# A shelf over a row of calls

A shelf reaches its collection in two ways: searches and additions go to the collection that it holds, statistics and
removals to the one that its client knows as the current one. Some calls change the one or the other. As long as a
client has only one shelf, both are the same collection after every row of calls, so the statistics count the documents
that a search finds. They count nothing if the details of the documents cannot be told.

## Main definitions

* `Shelf.Call` — the calls of a shelf.
* `Shelf.after` — the shelf after a call, whether it succeeds or not.

## Main results

* `Shelf.exists_describe` — documents whose details are texts can be told.
* `Shelf.handle_keeps_collection` — the statistics count what a search finds, if they count.
* `Shelf.statistics_listed` — a document that is found and not counted.
-/

namespace CodeAudit

open List

/-- The language, the kind and the file of a document are texts, or are lacking. -/
def Document.HasTexts (d : Document) : Prop :=
  ∀ key ∈ ["language", "chunk_type", "file_name"], ∃ s, d.detail key (.text "unknown") = .ok (.text s)

namespace Shelf

variable {s : Shelf}

variable {docs : List Document} {size : Datum} {ids : List String} {next : Shelf} {c : Collection}

/-! ## Calls -/

/-- The calls of a shelf. -/
inductive Call
  | add (docs : List Document) (size : Datum)
  | remove (file : Datum)
  | update (docs : List Document) (file : Datum)
  | reset
  | statistics
  | search (count wanted : Datum)

/-- **The shelf after a call**, whether it succeeds or not. -/
def after (s : Shelf) : Call → Shelf
  | .add docs size =>
    match s.add docs size with
    | .ok (_, next) => next
    | .error _ => s
  | .remove file => (s.remove file).2
  | .update docs file =>
    match s.update docs file with
    | .ok (_, next) => next
    | .error _ => (s.remove file).2
  | .reset => s.reset.2
  | .statistics | .search _ _ => s

/-- What an addition that succeeds does to a shelf. -/
lemma of_add (h : s.add docs size = .ok (ids, next)) : ∃ batch, next = s.addBatch batch := by
  unfold add at h
  obtain ⟨n, -, h⟩ := Outcome.bind_eq_ok.mp h
  by_cases hzero : n = 0
  · simp [hzero, bind, Except.bind, throw, throwThe, MonadExceptOf.throw] at h
  · by_cases hneg : n < 0
    · simp only [hzero, if_false, hneg, if_true, bind, Except.bind, pure, Except.pure, Except.ok.injEq,
        Prod.mk.injEq] at h
      exact ⟨[], by simp [addBatch, Collection.putAll, Client.change_id, h.2]⟩
    · simp only [hzero, if_false, hneg, bind, Except.bind, pure, Except.pure, Except.ok.injEq, Prod.mk.injEq,
        foldl_addBatch] at h
      exact ⟨_, h.2.symm⟩

/-- An addition leaves the shelf attached. -/
lemma Attached.of_add (h : s.Attached) (hadd : s.add docs size = .ok (ids, next)) : next.Attached := by
  obtain ⟨batch, rfl⟩ := Shelf.of_add hadd
  exact h.addBatch batch

/-- A removal leaves the shelf attached: the collection that is opened again is the current one. -/
lemma Attached.remove (h : s.Attached) (file : Datum) : (s.remove file).2.Attached := by
  unfold Shelf.remove
  simp only [h.current]
  split_ifs with hnone
  · exact h
  · apply attached_open_
    intro n hn
    obtain rfl : s.held = n := Option.some.inj (h.current.symm.trans hn)
    simpa [Client.change] using h.made

/-- A reset leaves the shelf attached: it holds the collection that is made in place of the one that is dropped. -/
lemma Attached.reset (h : s.Attached) : s.reset.2.Attached := by
  have hdrop : s.client.drop = .ok { s.client with current := none } := by
    simp [Client.drop, Client.currentNumber, h.current, bind, Except.bind, pure, Except.pure]
  simp only [Shelf.reset, hdrop]
  exact attached_open_ (by simp)

/-- **A call leaves the shelf attached.** -/
lemma Attached.after (h : s.Attached) (call : Call) : (s.after call).Attached := by
  cases call with
  | add docs size =>
    cases hadd : s.add docs size with
    | ok result => simpa only [Shelf.after, hadd] using h.of_add hadd
    | error e => simpa only [Shelf.after, hadd] using h
  | remove file => exact h.remove file
  | update docs file =>
    cases hupdate : s.update docs file with
    | ok result => simpa only [Shelf.after, hupdate] using (h.remove file).of_add hupdate
    | error e => simpa only [Shelf.after, hupdate] using h.remove file
  | reset => exact h.reset
  | statistics => exact h
  | search count wanted => exact h

/-- **A row of calls leaves the shelf attached.** -/
lemma Attached.run (h : s.Attached) (calls : List Call) : (calls.foldl Shelf.after s).Attached := by
  induction calls generalizing s with
  | nil => exact h
  | cons call calls ih => exact ih (h.after call)

/-! ## Searches -/

/-- **A search without a bound finds all documents.** -/
lemma search_all (s : Shelf) :
    ∃ found, s.search .null = .ok found ∧ (found.map (·.1)).Perm s.documents ∧
      ∀ k : ℕ, s.documents.length ≤ k → s.search (.int k) = .ok found := by
  have hall : s.contents.select [] = s.contents.entries := by simp [Collection.select, Collection.fits]
  have hperm : ((s.contents.ranked []).map (·.1)).Perm s.documents := by
    refine ((mergeSort_perm _ _).map _).trans ?_
    rw [hall, map_map]
    exact .refl _
  refine ⟨s.contents.ranked [], rfl, hperm, fun k hk => ?_⟩
  have hlength : (s.contents.ranked []).length ≤ k := by simpa using hperm.length_eq.trans_le hk
  change Datum.firstOf (s.contents.ranked []) (.int k) = _
  rw [Datum.firstOf_eq_take, take_of_length_le hlength]

/-! ## Statistics -/

/-- Statistics that can be told begin with the number of the documents. -/
lemma total_of_describe {entries : List (String × Datum)} (h : describe c = .ok entries) :
    entries.lookup "total_documents" = some (.int c.entries.length) := by
  unfold describe at h
  by_cases hempty : c.entries.isEmpty
  · simp only [hempty, if_true, pure, Except.pure, Except.ok.injEq] at h
    rw [← h, lookup_cons_self]
  · simp only [hempty, Bool.false_eq_true, if_false] at h
    obtain ⟨told, -, h⟩ := Outcome.bind_eq_ok.mp h
    obtain ⟨languages, -, h⟩ := Outcome.bind_eq_ok.mp h
    obtain ⟨kinds, -, h⟩ := Outcome.bind_eq_ok.mp h
    rw [← Except.ok.inj h, lookup_cons_self]

/-- The statistics of an attached shelf tell why what it holds cannot be told. -/
lemma Attached.statistics_of_error (h : s.Attached) {e : Fault} (herror : describe s.contents = .error e) :
    s.statistics = [("error", .text e.message)] := by
  have hcurrent : s.client.currentNumber = .ok s.held := by simp [Client.currentNumber, h.current]
  have hheld : describe (s.client.collection s.held) = .error e := herror
  simp only [Shelf.statistics, hcurrent, Except.bind, hheld]

/-- The statistics of an attached shelf are those of what it holds. -/
lemma Attached.statistics_cases (h : s.Attached) :
    s.statistics.lookup "total_documents" = some (.int s.documents.length) ∨
      ∃ e, describe s.contents = .error e ∧ s.statistics = [("error", .text e.message)] := by
  cases hdescribe : describe s.contents with
  | ok entries =>
    left
    have hcurrent : s.client.currentNumber = .ok s.held := by simp [Client.currentNumber, h.current]
    have hheld : describe (s.client.collection s.held) = .ok entries := hdescribe
    simp only [Shelf.statistics, hcurrent, Except.bind, hheld]
    rw [total_of_describe hheld, documents, length_map, contents]
  | error e => exact .inr ⟨e, rfl, h.statistics_of_error hdescribe⟩

/-- Texts can be put in order. -/
lemma exists_sortM_of_texts {values : List Datum} (h : ∀ v ∈ values, ∃ t, v = .text t) :
    ∃ sorted, Sequence.sortM Datum.less values = .ok sorted := by
  have hcompares : Sequence.Compares Datum.less Datum.str values := by
    intro v hv w hw
    obtain ⟨t, rfl⟩ := h v hv
    obtain ⟨u, rfl⟩ := h w hw
    exact Datum.less_text t u
  exact ⟨_, Sequence.sortM_eq hcompares⟩

/-- The details of a document that are texts can be told. -/
lemma toldDetails_of_texts {d : Document} (h : d.HasTexts) :
    ∃ language kind file, toldDetails d = .ok (.text language, .text kind, .text file) := by
  have htold : ∀ key ∈ ["language", "chunk_type", "file_name"], ∃ t, toldDetail d key = .ok (.text t) := by
    intro key hkey
    obtain ⟨t, ht⟩ := h key hkey
    exact ⟨t, by rw [toldDetail, ht]; rfl⟩
  obtain ⟨language, hlanguage⟩ := htold "language" (by simp)
  obtain ⟨kind, hkind⟩ := htold "chunk_type" (by simp)
  obtain ⟨file, hfile⟩ := htold "file_name" (by simp)
  exact ⟨language, kind, file, by rw [toldDetails, hlanguage, hkind, hfile]; rfl⟩

/-- **Documents whose details are texts can be told.** -/
lemma exists_describe (h : ∀ x ∈ c.entries, x.2.HasTexts) : ∃ entries, describe c = .ok entries := by
  unfold describe
  by_cases hempty : c.entries.isEmpty
  · exact ⟨_, by simp only [hempty, if_true]; rfl⟩
  simp only [hempty, Bool.false_eq_true, if_false]
  set docs := ((c.entries.take 100).map (·.2)).filter fun d => d.metadata.truthy with hdocs
  have htexts : ∀ d ∈ docs, d.HasTexts := by
    intro d hd
    obtain ⟨x, hx, rfl⟩ := mem_map.mp (mem_of_mem_filter hd)
    exact h x (mem_of_mem_take hx)
  obtain ⟨told, htold⟩ := Outcome.exists_mapM fun d hd => by
    obtain ⟨language, kind, file, hd⟩ := toldDetails_of_texts (htexts d hd)
    exact ⟨_, hd⟩
  have hrow : ∀ t ∈ told, (∃ language, t.1 = .text language) ∧ ∃ kind, t.2.1 = .text kind := by
    intro t ht
    obtain ⟨d, hd, hdetails⟩ := Outcome.exists_of_mem_mapM htold ht
    obtain ⟨language, kind, file, htexts⟩ := toldDetails_of_texts (htexts d hd)
    obtain rfl := Except.ok.inj (htexts.symm.trans hdetails)
    exact ⟨⟨language, rfl⟩, kind, rfl⟩
  have hsorted : ∀ detail : Datum × Datum × Datum → Datum, (∀ t ∈ told, ∃ s, detail t = .text s) →
      ∃ sorted, Sequence.sortM Datum.less (told.map detail).eraseDups = .ok sorted := by
    intro detail hdetail
    refine exists_sortM_of_texts fun v hv => ?_
    obtain ⟨t, ht, rfl⟩ := mem_map.mp (Sequence.mem_of_mem_eraseDups hv)
    exact hdetail t ht
  obtain ⟨languages, hlanguages⟩ := hsorted (·.1) fun t ht => (hrow t ht).1
  obtain ⟨kinds, hkinds⟩ := hsorted (·.2.1) fun t ht => (hrow t ht).2
  rw [htold]
  simp only [bind, Except.bind, hlanguages, hkinds]
  exact ⟨_, rfl⟩

/-! ## A row of calls -/

/-- **A shelf keeps its collection.** Whatever a client knows when its only shelf is opened, after every row of calls the
shelf holds the current collection of the client. A search without a bound, or with one that is great enough, finds the
documents of that collection, and the statistics tell how many these are, unless they tell an error because the details
of the documents cannot be told. Details that are texts can be told.

**Proof sketch.** Every call leaves the shelf attached (`Attached.after`), and so does the row of calls (`Attached.run`).
Then the collection that is searched (`search_all`) is the one that is described (`Attached.statistics_cases`). -/
theorem handle_keeps_collection {c : Client} (hmade : ∀ n, c.current = some n → n < c.collections.length)
    (calls : List Call) {s : Shelf} (hs : calls.foldl after c.open_ = s) :
    s.client.currentNumber = .ok s.held ∧
      ∃ found, s.search .null = .ok found ∧ (∀ k : ℕ, found.length ≤ k → s.search (.int k) = .ok found) ∧
        (found.map (·.1)).Perm s.documents ∧
        (s.statistics.lookup "total_documents" = some (.int found.length) ∨
          ∃ e, describe s.contents = .error e ∧ s.statistics = [("error", .text e.message)]) ∧
        ((∀ d ∈ s.documents, d.HasTexts) → s.statistics.lookup "total_documents" = some (.int found.length)) := by
  have hattached : s.Attached := hs ▸ (attached_open_ hmade).run calls
  obtain ⟨found, hall, hperm, hmany⟩ := s.search_all
  have hlength : found.length = s.documents.length := by simpa using hperm.length_eq
  refine ⟨by simp [Client.currentNumber, hattached.current], found, hall, fun k hk => hmany k (hlength ▸ hk), hperm, ?_, ?_⟩
  · rw [hlength]
    exact hattached.statistics_cases
  · intro htexts
    rw [hlength]
    refine hattached.statistics_cases.resolve_right ?_
    rintro ⟨e, herror, -⟩
    obtain ⟨entries, hentries⟩ := exists_describe (c := s.contents) fun x hx => htexts x.2 (List.mem_map_of_mem hx)
    rw [hentries] at herror
    cases herror

/-- A document in a language. -/
def spoken : Document := ⟨"x", .object [("language", .text "python")]⟩

/-- Two documents, a reset, and one document. -/
def twoThenOne : List Call :=
  [.add [spoken, spoken] (.int 1), .reset, .add [spoken] (.int 100)]

/-- After a reset one document counts and is found. -/
theorem handle_twoThenOne :
    ∃ found, (twoThenOne.foldl after (Client.open_ ⟨[.empty], some 0⟩)).search .null = .ok found ∧ found.length = 1 ∧
      (twoThenOne.foldl after (Client.open_ ⟨[.empty], some 0⟩)).statistics.lookup "total_documents" = some (.int 1) := by
  obtain ⟨-, found, hfound, -, hperm, -, htotal⟩ :=
    handle_keeps_collection (c := ⟨[.empty], some 0⟩) (by simp) twoThenOne rfl
  have hdocuments : (twoThenOne.foldl after (Client.open_ ⟨[.empty], some 0⟩)).documents = [spoken] := rfl
  have hlength : found.length = 1 := by simpa [hdocuments] using hperm.length_eq
  refine ⟨found, hfound, hlength, ?_⟩
  rw [htotal, hlength]
  · rfl
  · rw [hdocuments]
    intro d hd
    obtain rfl := List.mem_singleton.mp hd
    intro key hkey
    simp only [List.mem_cons, List.not_mem_nil, or_false] at hkey
    rcases hkey with rfl | rfl | rfl
    · exact ⟨"python", by cbv⟩
    · exact ⟨"unknown", by cbv⟩
    · exact ⟨"unknown", by cbv⟩

/-- A document whose language is a list. -/
def listed : Document := ⟨"x", .object [("language", .list [])]⟩

lemma describe_listed (name : String) : describe ⟨[(name, listed)]⟩ = .error (.unhashable "list") := by
  have htold : toldDetails listed = .error (.unhashable "list") := by cbv
  have htruthy : listed.metadata.truthy = true := rfl
  simp [describe, htruthy, htold, bind, Except.bind]

/-- **A document whose language is a list is found, but it is not counted**: the statistics tell an error. -/
theorem statistics_listed :
    (∃ found, (after (Client.open_ {}) (.add [listed] (.int 100))).search .null = .ok found ∧ found.length = 1) ∧
      (after (Client.open_ {}) (.add [listed] (.int 100))).statistics = [("error", .text "unhashable type: 'list'")] ∧
      (after (Client.open_ {}) (.add [listed] (.int 100))).statistics.lookup "total_documents" = none := by
  obtain ⟨found, hfound, hperm, -⟩ := search_all (after (Client.open_ {}) (.add [listed] (.int 100)))
  have hcontents : (after (Client.open_ {}) (.add [listed] (.int 100))).contents = ⟨[("doc_0", listed)]⟩ := rfl
  have hattached : (after (Client.open_ {}) (.add [listed] (.int 100))).Attached :=
    (attached_open_ (by simp)).after (.add [listed] (.int 100))
  have hstatistics : (after (Client.open_ {}) (.add [listed] (.int 100))).statistics =
      [("error", .text "unhashable type: 'list'")] := by
    rw [hattached.statistics_of_error (e := .unhashable "list") (by rw [hcontents, describe_listed])]
    rfl
  refine ⟨⟨found, hfound, by simpa [documents, hcontents] using hperm.length_eq⟩, hstatistics, ?_⟩
  rw [hstatistics]
  rfl

end Shelf

end CodeAudit
