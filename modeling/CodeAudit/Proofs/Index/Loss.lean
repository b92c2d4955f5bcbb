import CodeAudit.Index.Repository
import CodeAudit.Proofs.Index.Shelf
import CodeAudit.Proofs.Outcome

/-!
# What indexing several files leaves in a collection

Every file that is indexed has its documents numbered from zero, so the documents of a file lie on top of those
of the files before it. This module gives the collection that a whole run leaves, and says exactly when nothing
is lost: when no more than one file has documents.

## Main definitions

* `Indexing.Cutter.Labels` — every document names the file it was cut from.
* `Indexing.Lossless` — a run kept every document that was cut, and counted the kept ones.

## Main results

* `Indexing.foldl_step_contents` — the collection and the counts that a run leaves.
* `Indexing.lossless_iff_one_file` — nothing is lost exactly if at most one file has documents.
-/

namespace CodeAudit

open List CodeAudit.Shelf

namespace Shelf

variable {rows : List (List Document)}

/-! ## Layers -/

/-- Rows of documents on top of each other, the last one uppermost. -/
def layered : List (List Document) → List Document
  | [] => []
  | row :: rows => overlay (layered rows) row

/-- At most as many documents can be seen as there are. -/
lemma length_layered_le (rows : List (List Document)) :
    (layered rows).length ≤ (rows.map List.length).sum := by
  induction rows with
  | nil => simp [layered]
  | cons row rows ih =>
    simp only [layered, length_overlay, map_cons, sum_cons]
    omega

/-- Without a row that is not empty there is nothing to see. -/
lemma layered_eq_nil_of_filter (h : rows.filter (!·.isEmpty) = []) :
    layered rows = [] := by
  induction rows with
  | nil => rfl
  | cons row rows ih =>
    rw [filter_cons] at h
    split at h
    · simp at h
    · rename_i hrow
      obtain rfl : row = [] := by simpa using hrow
      simp [layered, ih h]

/-- **All documents can be seen exactly if at most one row has any.**

**Proof sketch.** Induction on the rows. An empty row counts for nothing. Below a row with documents the
number of those that can be seen is a maximum where the number of all is a sum, so both agree only if the
other rows are empty. -/
lemma length_layered_eq_sum_iff (rows : List (List Document)) :
    (layered rows).length = (rows.map List.length).sum ↔ (rows.filter (!·.isEmpty)).length ≤ 1 := by
  induction rows with
  | nil => simp [layered]
  | cons row rows ih =>
    have hle := length_layered_le rows
    simp only [layered, length_overlay, map_cons, sum_cons]
    cases row with
    | nil => simpa using ih
    | cons d row =>
      have hsum : (rows.map List.length).sum = 0 ↔ rows.filter (!·.isEmpty) = [] := by
        simp [sum_eq_zero_iff, filter_eq_nil_iff]
      have hone : (((d :: row) :: rows).filter (!·.isEmpty)).length ≤ 1 ↔
          rows.filter (!·.isEmpty) = [] := by
        simp
      rw [hone, ← hsum, length_cons]
      omega

/-- If at most one row has documents, all of them can be seen. -/
lemma mem_layered_of_filter (h : (rows.filter (!·.isEmpty)).length ≤ 1)
    {row : List Document} (hrow : row ∈ rows) {d : Document} (hd : d ∈ row) : d ∈ layered rows := by
  induction rows with
  | nil => simp at hrow
  | cons first rows ih =>
    cases first with
    | nil =>
      have hrow' : row ∈ rows := by
        rcases mem_cons.mp hrow with rfl | hrow
        · simp at hd
        · exact hrow
      simpa [layered] using ih (by simpa using h) hrow'
    | cons e first =>
      have hnone : rows.filter (!·.isEmpty) = [] := by simpa using h
      rcases mem_cons.mp hrow with rfl | hrow
      · simpa [layered, layered_eq_nil_of_filter hnone] using hd
      · have := filter_eq_nil_iff.mp hnone row hrow
        simp_all

end Shelf

namespace Indexing

variable {cut : Cutter} {d : Document} {c : Chunk} {shelf : Shelf}

/-! ## Files and their documents -/

/-- Every document names the file it was cut from. -/
def Cutter.Labels (cut : Cutter) : Prop :=
  ∀ file source language docs, cut file source language = .ok docs → ∀ d ∈ docs, d.IsOf file

/-- The documents of a file, none if it cannot be read or cut. -/
def cuttings (fs : Files) (cut : Cutter) (item : Item) : List Document :=
  (documentsOf fs cut item).toOption.getD []

/-- A file that has documents; only such a file is counted as indexed. -/
def isIndexed (fs : Files) (cut : Cutter) (item : Item) : Bool :=
  !(cuttings fs cut item).isEmpty

/-- The documents of a file name it. -/
lemma Cutter.Labels.isOf (hcut : cut.Labels) {fs : Files} {item : Item}
    (hd : d ∈ cuttings fs cut item) : d.IsOf item.file := by
  unfold cuttings documentsOf at hd
  cases hread : fs.readText (.ofString item.file) with
  | error e => simp [hread, bind, Except.bind, Except.toOption] at hd
  | ok source =>
    cases hdocs : cut item.file source item.language with
    | error e => simp [hread, hdocs, bind, Except.bind, Except.toOption] at hd
    | ok docs =>
      refine hcut _ _ _ docs hdocs d ?_
      simpa [hread, hdocs, bind, Except.bind, Except.toOption] using hd

/-- A document of a chunk names the file of the chunk. -/
lemma isOf_of_toDocument (h : c.toDocument = .ok d) : d.IsOf c.file := by
  unfold Chunk.toDocument at h
  cases hscore : c.complexity.mapM Datum.toFloat with
  | error e => simp [hscore, bind, Except.bind] at h
  | ok score =>
    simp only [hscore, bind, Except.bind, pure, Except.pure, Except.ok.injEq] at h
    subst h
    simp [Document.IsOf, Datum.object, Datum.entry?, Datum.lookup, Datum.equals]

/-- Every chunk of a source belongs to its file. -/
lemma file_of_mem_extract {split : Chunker.Splitter} {file source language : String}
    (hc : c ∈ Chunker.extract split file source language) : c.file = file := by
  have htext : ∀ tag, c ∈ Chunker.ofText split file source tag → c.file = file := by
    intro tag h
    obtain ⟨⟨part, i⟩, -, rfl⟩ := mem_map.mp h
    rfl
  unfold Chunker.extract at hc
  simp only at hc
  split_ifs at hc
  · unfold Chunker.ofScript at hc
    split at hc
    · rcases mem_append.mp hc with hc | hc
      · obtain ⟨doc, -, rfl⟩ := Option.map_eq_some_iff.mp (Option.mem_toList.mp hc)
        rfl
      · obtain ⟨n, -, hc⟩ := mem_flatMap.mp hc
        unfold Chunker.definitionChunks at hc
        split at hc
        · obtain rfl := mem_singleton.mp hc
          rfl
        · obtain rfl := mem_singleton.mp hc
          rfl
        · rcases mem_cons.mp hc with rfl | hc
          · rfl
          · obtain ⟨m, -, rfl⟩ := mem_map.mp hc
            rfl
        · simp at hc
    · exact htext _ hc
  · unfold Chunker.ofBraces at hc
    simp only at hc
    split_ifs at hc
    · exact htext _ hc
    · obtain ⟨⟨line, i⟩, -, h⟩ := mem_filterMap.mp hc
      obtain ⟨name, -, rfl⟩ := Option.map_eq_some_iff.mp h
      rfl
  · exact htext _ hc

/-- **The documents of chunks name their file.** -/
lemma labels_intoChunks (split : Chunker.Splitter) : (intoChunks split).Labels := by
  intro file source language docs h d hd
  unfold intoChunks at h
  split at h
  · obtain ⟨c, hc, hdoc⟩ := Outcome.exists_of_mem_mapM h hd
    rw [← file_of_mem_extract hc]
    exact isOf_of_toDocument hdoc
  · simp [throw, throwThe, MonadExceptOf.throw] at h

/-! ## One file -/

/-- What one file does to the report and the shelf, if nothing of it is stored yet: its documents are put
into the collection as one row, and are counted. -/
structure Advances (fs : Files) (cut : Cutter) (item : Item) (before after : Report × Shelf) : Prop where
  attached : after.2.Attached
  contents : after.2.contents = before.2.contents.putAll (numbered 0 (cuttings fs cut item))
  chunks : after.1.chunks = before.1.chunks + (cuttings fs cut item).length
  successful : after.1.successful = before.1.successful + if isIndexed fs cut item then 1 else 0

/-- **One file advances the run.**

**Proof sketch.** A file that fails, or has no documents, leaves the shelf as it is and counts nothing. For
the others nothing is removed, since no stored document names them, so the update only adds. -/
lemma step_advances (fs : Files) (cut : Cutter) (report : Report) (h : shelf.Attached)
    (item : Item) (hforeign : ∀ d ∈ shelf.documents, ∃ file, d.IsOf file ∧ file ≠ item.file) :
    Advances fs cut item (report, shelf) (step fs cut (report, shelf) item) := by
  cases hdocs : documentsOf fs cut item with
  | error e =>
    have hcut : cuttings fs cut item = [] := by simp [cuttings, hdocs, Except.toOption]
    simp only [step, hdocs, bind, Except.bind]
    exact ⟨h, by simp [hcut], by simp [hcut], by simp [isIndexed, hcut]⟩
  | ok docs =>
    have hcut : cuttings fs cut item = docs := by simp [cuttings, hdocs, Except.toOption]
    by_cases hempty : docs = []
    · subst hempty
      simp only [step, hdocs, bind, Except.bind]
      exact ⟨h, by simp [hcut, pure, Except.pure], by simp [hcut, pure, Except.pure],
        by simp [isIndexed, hcut, pure, Except.pure]⟩
    · have hstored : ∀ d ∈ shelf.documents,
          Collection.fits [(.text "file_path", .text item.file)] d = false := by
        intro d hd
        obtain ⟨file, hfile, hne⟩ := hforeign d hd
        simpa [hfile.fits_eq] using hne
      have hupdate := update_of_foreign h docs hstored
      simp only [step, hdocs, bind, Except.bind, List.isEmpty_iff, hempty, if_false, hupdate, pure,
        Except.pure]
      refine ⟨h.addBatch _, ?_, ?_, ?_⟩
      · rw [hcut]
        exact contents_addBatch h _
      · simp [hcut]
      · simp [isIndexed, hcut, hempty]

/-! ## A whole run -/

/-- **What a run leaves**, from a shelf whose documents are a row of running numbers and belong to none of
the files.

**Proof sketch.** Induction on the files. The first file advances the run by one layer. Its documents name
it, and no later file has its name, so the collection is again as the induction hypothesis needs it. -/
lemma foldl_step_contents (fs : Files) (hcut : cut.Labels) (items : List Item)
    (hitems : (items.map (·.file)).Nodup) (report : Report) (h : shelf.Attached)
    {bottom : List Document} (hbottom : shelf.contents = ⟨numbered 0 bottom⟩)
    (hforeign : ∀ d ∈ bottom, ∃ file, d.IsOf file ∧ file ∉ items.map (·.file)) :
    let out := items.foldl (step fs cut) (report, shelf)
    out.2.contents = ⟨numbered 0 (overlay (layered (items.map (cuttings fs cut))) bottom)⟩ ∧
      out.1.chunks = report.chunks + ((items.map (cuttings fs cut)).map List.length).sum ∧
      out.1.successful = report.successful + (items.filter (isIndexed fs cut)).length := by
  induction items generalizing report shelf bottom with
  | nil => simpa [layered] using hbottom
  | cons item items ih =>
    simp only [map_cons, nodup_cons] at hitems
    have hdocuments : shelf.documents = bottom := by simp [documents, hbottom]
    have hother : ∀ d ∈ shelf.documents, ∃ file, d.IsOf file ∧ file ≠ item.file := by
      rw [hdocuments]
      intro d hd
      obtain ⟨file, hfile, hne⟩ := hforeign d hd
      exact ⟨file, hfile, fun heq => hne (by simp [heq])⟩
    obtain ⟨hattached, hcontents, hchunks, hsuccessful⟩ := step_advances fs cut report h item hother
    simp only [hbottom, Collection.putAll_numbered] at hcontents hchunks hsuccessful
    have hnext := ih hitems.2 (step fs cut (report, shelf) item).1 hattached hcontents (by
      intro d hd
      rcases mem_of_mem_overlay hd with hd | hd
      · exact ⟨item.file, hcut.isOf hd, hitems.1⟩
      · obtain ⟨file, hfile, hne⟩ := hforeign d hd
        exact ⟨file, hfile, fun hmem => hne (mem_cons_of_mem _ hmem)⟩)
    simp only [foldl_cons, map_cons, sum_cons, filter_cons]
    refine ⟨?_, ?_, ?_⟩
    · rw [hnext.1, layered, overlay_assoc]
    · rw [hnext.2.1, hchunks]
      omega
    · rw [hnext.2.2, hsuccessful]
      split
      · rw [length_cons]
        omega
      · omega

/-- A run kept every document that was cut from a file, and told how many documents there are. -/
def Lossless (fs : Files) (cut : Cutter) (items : List Item) (out : Report × Shelf) : Prop :=
  (∀ item ∈ items, ∀ docs, documentsOf fs cut item = .ok docs → ∀ d ∈ docs, d ∈ out.2.documents) ∧
    out.2.documents.length = out.1.chunks

/-- **Nothing is lost exactly if at most one file has documents.** A run over files with different names, on
a shelf whose collection is empty, leaves the layers of the files' documents under `doc_0`, `doc_1`, …; it
reports the number of all documents and of the files that have some; and it is lossless exactly if at most one
file has some.

**Proof sketch.** `foldl_step_contents` gives the layers and the counts. As many documents are left as the
longest row has, and as many are reported as all rows have together, so the two numbers agree only if at most
one row has documents (`length_layered_eq_sum_iff`); then the layers are that row. -/
theorem lossless_iff_one_file (fs : Files) {cut : Cutter} (hcut : cut.Labels) {shelf : Shelf}
    (h : shelf.Attached) (hempty : shelf.documents = []) {items : List Item}
    (hitems : (items.map (·.file)).Nodup) :
    let out := runWith fs cut shelf items
    out.2.contents.entries = Shelf.numbered 0 (Shelf.layered (items.map (cuttings fs cut))) ∧
      out.1.chunks = ((items.map (cuttings fs cut)).map List.length).sum ∧
      out.1.successful = (items.filter (isIndexed fs cut)).length ∧
      (Lossless fs cut items out ↔ out.1.successful ≤ 1) := by
  have hbottom : shelf.contents = ⟨Shelf.numbered 0 []⟩ := by
    cases hc : shelf.contents with
    | mk entries =>
      have hentries : entries = [] := by simpa [Shelf.documents, hc] using hempty
      simp [hentries]
  obtain ⟨hcontents, hchunks, hsuccessful⟩ :=
    foldl_step_contents fs hcut items hitems {} h hbottom (by simp)
  simp only [Shelf.overlay_nil_right, Nat.zero_add] at hcontents hchunks hsuccessful
  have hdocuments : (runWith fs cut shelf items).2.documents =
      Shelf.layered (items.map (cuttings fs cut)) := by
    simp [Shelf.documents, runWith, hcontents]
  have hrows : ((items.map (cuttings fs cut)).filter (!·.isEmpty)).length =
      (items.filter (isIndexed fs cut)).length := by
    rw [List.filter_map, List.length_map]
    rfl
  refine ⟨by simp [runWith, hcontents], hchunks, hsuccessful, ?_⟩
  rw [show (runWith fs cut shelf items).1.successful = _ from hsuccessful, ← hrows]
  constructor
  · rintro ⟨-, hlength⟩
    rw [hdocuments, show (runWith fs cut shelf items).1.chunks = _ from hchunks] at hlength
    exact (Shelf.length_layered_eq_sum_iff _).mp hlength
  · intro hone
    refine ⟨?_, ?_⟩
    · intro item hitem docs hdocs d hd
      have hd' : d ∈ cuttings fs cut item := by simpa [cuttings, hdocs, Except.toOption] using hd
      rw [hdocuments]
      exact Shelf.mem_layered_of_filter hone (List.mem_map_of_mem hitem) hd'
    · rw [hdocuments, show (runWith fs cut shelf items).1.chunks = _ from hchunks]
      exact (Shelf.length_layered_eq_sum_iff _).mpr hone

/-- Two files with one document each: the second document takes the place of the first, and two are
reported. -/
theorem not_lossless_two_files :
    let fs : Files := ⟨[(["a.txt"], .file [97] 0), (["b.txt"], .file [98] 0)], []⟩
    let items : List Item := [⟨"a.txt", .text "text"⟩, ⟨"b.txt", .text "text"⟩]
    ¬ Lossless fs (intoChunks Chunker.whole) items
      (runWith fs (intoChunks Chunker.whole) ({} : Client).open_ items) := by
  intro fs items hlossless
  have hattached : ({} : Client).open_.Attached := Shelf.attached_open_ (by simp)
  have hall := lossless_iff_one_file fs (labels_intoChunks Chunker.whole) hattached rfl
    (show (items.map (·.file)).Nodup by decide)
  have ha : fs.readText (.ofString "a.txt") = .ok "a" := by cbv
  have hb : fs.readText (.ofString "b.txt") = .ok "b" := by cbv
  have htwo : (items.filter (isIndexed fs (intoChunks Chunker.whole))).length = 2 := by
    simp only [items, isIndexed, cuttings, documentsOf, List.filter_cons, ha, hb]
    decide +kernel
  have hone := hall.2.2.2.mp hlossless
  rw [hall.2.2.1, htwo] at hone
  omega

end Indexing

end CodeAudit
