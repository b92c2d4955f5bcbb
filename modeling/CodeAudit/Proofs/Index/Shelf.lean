import CodeAudit.Proofs.Datum
import CodeAudit.Proofs.Index.Numbering

/-!
# What the operations of a shelf do

A shelf that holds the current collection of its client stays attached to it, and each of its operations
changes that one collection. Adding puts one row of running numbers into it, whatever the size of the
batches; removing a file of which nothing is stored changes nothing.

## Main definitions

* `Shelf.contents`, `Shelf.documents` — what a shelf holds.
* `Document.IsOf` — the description of a document names a file.

## Main results

* `Shelf.add_eq` — adding puts one row of running numbers into the collection.
* `Shelf.update_of_foreign` — an update for a file of which nothing is stored only adds.
-/

namespace CodeAudit

/-! ## Files of documents -/

/-- The description of a document names the given file. -/
def Document.IsOf (d : Document) (file : String) : Prop :=
  d.metadata.entry? "file_path" = some (.text file)

/-- A document of one file is asked for by the name of another exactly if the names agree. -/
lemma Document.IsOf.fits_eq {d : Document} {file : String} (h : d.IsOf file) (other : String) :
    Collection.fits [(.text "file_path", .text other)] d = (file == other) := by
  unfold Document.IsOf Datum.entry? at h
  unfold Collection.fits
  split at h
  · simp_all
  · simp at h

/-! ## Collections of a client -/

namespace Client

/-- A change shows in the collection that is changed. -/
lemma collection_change_self {c : Client} {n : ℕ} (h : n < c.collections.length)
    (f : Collection → Collection) : (c.change n f).collection n = f (c.collection n) := by
  simp [change, collection, h]

/-- Two changes of one collection are one. -/
lemma change_change (c : Client) (n : ℕ) (f g : Collection → Collection) :
    (c.change n f).change n g = c.change n (g ∘ f) := by
  simp only [change, Client.mk.injEq, and_true]
  apply List.ext_getElem?
  intro i
  by_cases hi : n = i <;> simp [hi, Function.comp_def]

lemma change_id (c : Client) (n : ℕ) : c.change n (fun x => x) = c := by
  have h : c.collections.modify n (fun x => x) = c.collections := by
    apply List.ext_getElem?
    intro i
    simp [List.getElem?_modify]
  simp [change, h]

end Client

namespace Shelf

variable {s : Shelf} {file : Datum}

/-! ## What a shelf holds -/

/-- The collection that a shelf holds. -/
def contents (s : Shelf) : Collection :=
  s.client.collection s.held

/-- The documents that a shelf holds. -/
def documents (s : Shelf) : List Document :=
  s.contents.entries.map (·.2)

/-- The shelf holds the current collection of its client. -/
structure Attached (s : Shelf) : Prop where
  current : s.client.current = some s.held
  made : s.held < s.client.collections.length

/-- A shelf is attached when it is opened. -/
lemma attached_open_ {c : Client} (h : ∀ n, c.current = some n → n < c.collections.length) :
    c.open_.Attached := by
  unfold Client.open_
  split
  · rename_i n hn
    exact ⟨hn, h n hn⟩
  · exact ⟨rfl, by simp⟩

/-! ## Adding -/

/-- Adding a batch leaves the shelf attached. -/
lemma Attached.addBatch (h : s.Attached) (batch : List (String × Document)) : (s.addBatch batch).Attached :=
  ⟨h.current, by simpa [Shelf.addBatch, Client.change] using h.made⟩

/-- A batch is put into the collection that is held. -/
lemma contents_addBatch (h : s.Attached) (batch : List (String × Document)) :
    (s.addBatch batch).contents = s.contents.putAll batch :=
  Client.collection_change_self h.made _

/-- Batches that are added one after the other are one batch. -/
lemma foldl_addBatch (s : Shelf) (all : List (List (String × Document))) :
    all.foldl addBatch s = s.addBatch all.flatten := by
  induction all generalizing s with
  | nil => simp [addBatch, Client.change_id]
  | cons batch all ih =>
    rw [List.foldl_cons, ih, List.flatten_cons]
    simp only [addBatch, Client.change_change]
    congr 2
    funext c
    simp [Collection.putAll, List.foldl_append]

/-- **Adding puts one row of running numbers into the collection**, whatever the size of the batches. -/
theorem add_eq (s : Shelf) (docs : List Document) {size : ℤ} (hsize : 0 < size) :
    s.add docs (.int size) =
      .ok ((numbered 0 docs).map (·.1), s.addBatch (numbered 0 docs)) := by
  have h0 : ¬ size = 0 := by omega
  have h1 : ¬ size < 0 := by omega
  have hbatches := flatten_batches (show 0 < size.toNat by omega) docs
  simp [add, Datum.toIndex, bind, Except.bind, pure, Except.pure, h0, h1, foldl_addBatch, hbatches]

/-! ## Removing and updating -/

/-- Removing a file of which nothing is stored changes nothing. -/
lemma remove_of_foreign (h : s.Attached)
    (hforeign : ∀ d ∈ s.documents, Collection.fits [(.text "file_path", file)] d = false) :
    s.remove file = (0, s) := by
  have hnone : s.contents.select [(.text "file_path", file)] = [] := by
    rw [Collection.select, List.filter_eq_nil_iff]
    rintro ⟨id, d⟩ hd
    simp [hforeign d (List.mem_map_of_mem hd)]
  simp only [contents] at hnone
  simp [remove, h.current, hnone]

/-- **An update for a file of which nothing is stored only adds.** -/
theorem update_of_foreign (h : s.Attached) (docs : List Document)
    (hforeign : ∀ d ∈ s.documents, Collection.fits [(.text "file_path", file)] d = false) :
    s.update docs file =
      .ok ((numbered 0 docs).map (·.1), s.addBatch (numbered 0 docs)) := by
  rw [update, remove_of_foreign h hforeign]
  exact add_eq s docs (by norm_num)

end Shelf

end CodeAudit
