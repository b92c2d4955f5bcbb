import CodeAudit.Proofs.Index.Handle

/-!
# Putting new documents in the place of old ones

An update for a file removes by description and adds by name: first go all documents that name the file, under whatever
names they are stored, then the new ones are stored under `doc_0`, `doc_1`, …, whosever documents these names had before.
This module gives the map from names to documents that is left, and shows that a second update leaves it as it is.

## Main definitions

* `Collection.document?` — the document under a name.
* `Collection.storedFor` — what is stored for a file.

## Main results

* `Shelf.document?_update_again` — a second update changes nothing.
* `Shelf.update_replaces_file` — after an update the documents of a file are the new ones.
-/

namespace CodeAudit

open List

namespace Collection

variable {c : Collection}

variable {rows : List (String × Document)} {file : String}

/-- The document under a name. -/
def document? (c : Collection) (id : String) : Option Document :=
  c.entries.lookup id

/-- What is stored for a file. -/
def storedFor (c : Collection) (file : String) : List (String × Document) :=
  c.select [(.text "file_path", .text file)]

lemma mem_storedFor {x : String × Document} :
    x ∈ c.storedFor file ↔ x ∈ c.entries ∧ fits [(.text "file_path", .text file)] x.2 = true := by
  rw [storedFor, select, mem_filter]

/-! ## The map from names to documents -/

/-- A document that is put under a name is found there, and nothing else changes. -/
lemma document?_put (c : Collection) (id : String) (d : Document) (key : String) :
    (c.put id d).document? key = if key = id then some d else c.document? key := by
  obtain ⟨entries⟩ := c
  change (putIn id d entries).lookup key = if key = id then some d else entries.lookup key
  induction entries with
  | nil =>
    by_cases hkey : key = id
    · simp [putIn, hkey]
    · simp [putIn, hkey, lookup_cons, beq_eq_false_iff_ne.mpr hkey]
  | cons entry entries ih =>
    obtain ⟨i, e⟩ := entry
    by_cases hi : i = id
    · subst hi
      by_cases hkey : key = i
      · simp [putIn, hkey]
      · simp [putIn, hkey, lookup_cons, beq_eq_false_iff_ne.mpr hkey]
    · have hput : putIn id d ((i, e) :: entries) = (i, e) :: putIn id d entries := by simp [putIn, hi]
      rw [hput, lookup_cons, lookup_cons, ih]
      by_cases hkey : key = i
      · have hne : key ≠ id := fun heq => hi (hkey.symm.trans heq)
        simp [hkey, hi]
      · simp [beq_eq_false_iff_ne.mpr hkey]

/-- **What is found after several documents were put under different names.** -/
lemma document?_putAll (hrows : (rows.map Prod.fst).Nodup) (c : Collection)
    (key : String) : (c.putAll rows).document? key = (rows.lookup key).or (c.document? key) := by
  induction rows generalizing c with
  | nil => rfl
  | cons row rows ih =>
    obtain ⟨id, d⟩ := row
    obtain ⟨hid, hrows⟩ := nodup_cons.mp hrows
    rw [putAll_cons, ih hrows, document?_put, lookup_cons]
    by_cases hkey : key = id
    · subst hkey
      simp [Sequence.lookup_eq_none_iff_not_mem.mpr hid]
    · simp [hkey, beq_eq_false_iff_ne.mpr hkey]

/-- Nothing is found under the names that were removed. -/
lemma document?_remove (c : Collection) (ids : List String) (key : String) :
    (c.remove ids).document? key = if key ∈ ids then none else c.document? key := by
  obtain ⟨entries⟩ := c
  change (entries.filter fun x => !ids.contains x.1).lookup key = if key ∈ ids then none else entries.lookup key
  induction entries with
  | nil => simp
  | cons entry entries ih =>
    obtain ⟨i, e⟩ := entry
    by_cases hi : i ∈ ids
    · rw [filter_cons_of_neg (by simp [hi]), ih, lookup_cons]
      split_ifs with hkey
      · rfl
      · have hne : (key == i) = false := by
          rw [beq_eq_false_iff_ne]
          rintro rfl
          exact hkey hi
        rw [hne]
    · rw [filter_cons_of_pos (by simp [hi]), lookup_cons, lookup_cons, ih]
      by_cases hkey : key = i
      · simp [hkey, hi]
      · simp [beq_eq_false_iff_ne.mpr hkey]

/-! ## What is stored for a file -/

/-- What is stored for a file has gone when its names are removed. -/
lemma storedFor_remove (c : Collection) (file : String) :
    (c.remove ((c.storedFor file).map Prod.fst)).storedFor file = [] := by
  rw [eq_nil_iff_forall_not_mem]
  intro x hx
  obtain ⟨hx, hfits⟩ := mem_storedFor.mp hx
  obtain ⟨hentry, hkept⟩ := mem_filter.mp hx
  have hstored : x.1 ∈ (c.storedFor file).map Prod.fst := mem_map_of_mem (mem_storedFor.mpr ⟨hentry, hfits⟩)
  simp [hstored] at hkept

/-- A document of a file is stored for it in addition to others, if its name is none of theirs. -/
lemma storedFor_put {id : String} {d : Document} (hd : d.IsOf file)
    (hid : id ∉ (c.storedFor file).map Prod.fst) :
    ((c.put id d).storedFor file).Perm ((id, d) :: c.storedFor file) := by
  obtain ⟨entries⟩ := c
  have hfits : fits [(.text "file_path", .text file)] d = true := by simp [hd.fits_eq]
  simp only [storedFor, select, put] at hid ⊢
  induction entries with
  | nil => simp [putIn, hfits]
  | cons entry entries ih =>
    obtain ⟨i, e⟩ := entry
    by_cases hi : i = id
    · -- the name was taken by a document of another file
      subst hi
      have he : fits [(.text "file_path", .text file)] e = false := by
        by_contra he
        apply hid
        rw [filter_cons_of_pos (by simpa using he)]
        exact mem_cons_self
      have hput : putIn i d ((i, e) :: entries) = (i, d) :: entries := by simp [putIn]
      rw [hput, filter_cons_of_pos (by simpa using hfits), filter_cons_of_neg (by simp [he])]
    · have hput : putIn id d ((i, e) :: entries) = (i, e) :: putIn id d entries := by simp [putIn, hi]
      rw [hput]
      by_cases he : fits [(.text "file_path", .text file)] e = true
      · rw [filter_cons_of_pos (by simpa using he)] at hid
        rw [filter_cons_of_pos (by simpa using he), filter_cons_of_pos (by simpa using he)]
        exact ((ih fun hmem => hid (mem_cons_of_mem _ hmem)).cons _).trans (.swap _ _ _)
      · rw [filter_cons_of_neg (by simpa using he)] at hid
        rw [filter_cons_of_neg (by simpa using he), filter_cons_of_neg (by simpa using he)]
        exact ih hid

/-- **Documents of a file that are put under different names** are stored for it in addition to others, if the names
are none of theirs. -/
lemma storedFor_putAll (hrows : (rows.map Prod.fst).Nodup)
    (hdocs : ∀ x ∈ rows, x.2.IsOf file)
    (hids : ∀ x ∈ rows, x.1 ∉ (c.storedFor file).map Prod.fst) :
    ((c.putAll rows).storedFor file).Perm (rows ++ c.storedFor file) := by
  induction rows generalizing c with
  | nil => exact .refl _
  | cons row rows ih =>
    obtain ⟨id, d⟩ := row
    obtain ⟨hid, hrows⟩ := nodup_cons.mp hrows
    have hput := storedFor_put (hdocs _ mem_cons_self) (hids _ mem_cons_self)
    rw [putAll_cons]
    refine (ih hrows (fun x hx => hdocs x (mem_cons_of_mem _ hx)) fun x hx hmem => ?_).trans ?_
    · rw [(hput.map Prod.fst).mem_iff, map_cons, mem_cons] at hmem
      rcases hmem with heq | hmem
      · have hx' : x.1 ∈ rows.map Prod.fst := mem_map_of_mem hx
        exact hid (heq ▸ hx')
      · exact hids x (mem_cons_of_mem _ hx) hmem
    · exact (hput.append_left rows).trans perm_middle

end Collection

namespace Shelf

variable {s : Shelf} {file : String} {docs : List Document}

variable {c : Collection}

/-! ## Running numbers as a map -/

/-- The names of a row of running numbers. -/
lemma map_fst_numbered (docs : List Document) : (numbered 0 docs).map Prod.fst = (List.range docs.length).map idOf := by
  apply ext_getElem?
  intro i
  simp only [getElem?_map, getElem?_numbered, Nat.zero_add, Option.map_map]
  by_cases hi : i < docs.length
  · simp [hi]
  · simp [hi]

lemma nodup_map_fst_numbered (docs : List Document) : ((numbered 0 docs).map Prod.fst).Nodup := by
  rw [map_fst_numbered]
  exact nodup_range.map idOf_injective

/-- Under the name with a number stands the document with that number. -/
lemma lookup_numbered (start : ℕ) (docs : List Document) (i : ℕ) :
    (numbered start docs).lookup (idOf (start + i)) = docs[i]? := by
  induction docs generalizing start i with
  | nil => rfl
  | cons d docs ih =>
    rw [numbered_cons, lookup_cons]
    cases i with
    | zero => simp
    | succ i =>
      have hne : (idOf (start + (i + 1)) == idOf start) = false := by simp
      rw [hne, getElem?_cons_succ, ← ih (start + 1) i, show start + (i + 1) = start + 1 + i by omega]

/-! ## One update -/

/-- A removal for a file removes what is stored for it. -/
lemma contents_remove (h : s.Attached) (file : String) :
    (s.remove (.text file)).2.contents = s.contents.remove ((s.contents.storedFor file).map Prod.fst) := by
  have hids : ((s.client.collection s.held).select [(.text "file_path", .text file)]).map (·.1) =
      (s.contents.storedFor file).map Prod.fst := rfl
  unfold Shelf.remove
  simp only [h.current, hids]
  split_ifs with hnone
  · have hempty : (s.contents.storedFor file).map Prod.fst = [] := by simpa using hnone
    simp [hempty, Collection.remove]
  · set ids := (s.contents.storedFor file).map Prod.fst
    have hopen : (s.client.change s.held (·.remove ids)).open_ = ⟨s.client.change s.held (·.remove ids), s.held⟩ := by
      have hcurrent : (s.client.change s.held (·.remove ids)).current = some s.held := h.current
      simp only [Client.open_, hcurrent]
    rw [hopen]
    exact Client.collection_change_self h.made _

/-- **The collection that an update leaves**: what was stored for the file is removed, and the documents are put under
running numbers. -/
lemma exists_update (h : s.Attached) (docs : List Document) (file : String) :
    ∃ next, s.update docs (.text file) = .ok ((List.range docs.length).map idOf, next) ∧ next.Attached ∧
      next.contents = (s.contents.remove ((s.contents.storedFor file).map Prod.fst)).putAll (numbered 0 docs) := by
  have hremoved := h.remove (.text file)
  refine ⟨(s.remove (.text file)).2.addBatch (numbered 0 docs), ?_, hremoved.addBatch _, ?_⟩
  · rw [update, add_eq _ docs (by norm_num), map_fst_numbered]
  · rw [contents_addBatch hremoved, contents_remove h]

/-- The map from names to documents that an update leaves. -/
lemma document?_of_update {next : Collection}
    (h : next = (c.remove ((c.storedFor file).map Prod.fst)).putAll (numbered 0 docs)) (id : String) :
    next.document? id = ((numbered 0 docs).lookup id).or
      (if id ∈ (c.storedFor file).map Prod.fst then none else c.document? id) := by
  rw [h, Collection.document?_putAll (nodup_map_fst_numbered docs), Collection.document?_remove]

/-- What an update leaves for the file is what it was given. -/
lemma storedFor_of_update {next : Collection} (hdocs : ∀ d ∈ docs, d.IsOf file)
    (h : next = (c.remove ((c.storedFor file).map Prod.fst)).putAll (numbered 0 docs)) :
    (next.storedFor file).Perm (numbered 0 docs) := by
  have hnone := c.storedFor_remove file
  have hrow : ∀ x ∈ numbered 0 docs, x.2.IsOf file := by
    intro x hx
    apply hdocs
    rw [← map_snd_numbered 0 docs]
    exact mem_map_of_mem hx
  have hperm := Collection.storedFor_putAll (c := c.remove ((c.storedFor file).map Prod.fst))
    (nodup_map_fst_numbered docs) hrow (by simp [hnone])
  rw [hnone, append_nil] at hperm
  rw [h]
  exact hperm

/-- **A second update changes nothing** of the map from names to documents.

**Proof sketch.** What the first one stored for the file has just the names that the second one fills again, with the same
documents. All other names are left alone. -/
lemma document?_update_again {next again : Collection} (hdocs : ∀ d ∈ docs, d.IsOf file)
    (hnext : next = (c.remove ((c.storedFor file).map Prod.fst)).putAll (numbered 0 docs))
    (hagain : again = (next.remove ((next.storedFor file).map Prod.fst)).putAll (numbered 0 docs)) (id : String) :
    again.document? id = next.document? id := by
  have hstored : id ∈ (next.storedFor file).map Prod.fst ↔ id ∈ (numbered 0 docs).map Prod.fst :=
    ((storedFor_of_update hdocs hnext).map Prod.fst).mem_iff
  rw [document?_of_update hagain]
  cases hlookup : (numbered 0 docs).lookup id with
  | some d =>
    rw [document?_of_update hnext, hlookup]
    rfl
  | none =>
    have hother : id ∉ (next.storedFor file).map Prod.fst := by
      rw [hstored]
      exact Sequence.lookup_eq_none_iff_not_mem.mp hlookup
    rw [if_neg hother, Option.none_or]

/-- **After an update the documents of a file are the new ones.** An update of a shelf that holds the current collection,
with documents that name the file, succeeds and tells the names `doc_0`, `doc_1`, … Then exactly the documents that were
given are stored for the file, the one with the number `i` under the name with that number. Under all other names stands
what stood there before, unless it was stored for the file. A second update with the same documents succeeds and leaves
the document under every name as it is. A shelf holds the current collection when it is opened, and after every row of
calls (`Attached.run`).

**Proof sketch.** `exists_update` gives the collection: nothing is stored for the file when the new documents are put, so
these are all that is stored for it afterwards (`Collection.storedFor_putAll`). The rest follows from the map from names
to documents (`document?_of_update`, `document?_update_again`). -/
theorem update_replaces_file (h : s.Attached) (hdocs : ∀ d ∈ docs, d.IsOf file) :
    ∃ next, s.update docs (.text file) = .ok ((List.range docs.length).map idOf, next) ∧ next.Attached ∧
      (next.contents.storedFor file).Perm (numbered 0 docs) ∧
      (∀ i < docs.length, next.contents.document? (idOf i) = docs[i]?) ∧
      (∀ id ∉ (List.range docs.length).map idOf, next.contents.document? id =
        if id ∈ (s.contents.storedFor file).map Prod.fst then none else s.contents.document? id) ∧
      ∃ again, next.update docs (.text file) = .ok ((List.range docs.length).map idOf, again) ∧ again.Attached ∧
        ∀ id, again.contents.document? id = next.contents.document? id := by
  obtain ⟨next, hupdate, hattached, hnext⟩ := exists_update h docs file
  obtain ⟨again, hupdate', hattached', hagain⟩ := exists_update hattached docs file
  refine ⟨next, hupdate, hattached, storedFor_of_update hdocs hnext, ?_, ?_, again, hupdate', hattached',
    document?_update_again hdocs hnext hagain⟩
  · intro i hi
    have hlookup := lookup_numbered 0 docs i
    rw [Nat.zero_add] at hlookup
    rw [document?_of_update hnext, hlookup, List.getElem?_eq_getElem hi]
    rfl
  · intro id hid
    have hnone : (numbered 0 docs).lookup id = none := by
      rw [Sequence.lookup_eq_none_iff_not_mem, map_fst_numbered]
      exact hid
    rw [document?_of_update hnext, hnone, Option.none_or]

/-- A document of a file. -/
def noted (content file : String) : Document :=
  ⟨content, .object [("file_path", .text file)]⟩

lemma isOf_noted (content file : String) : (noted content file).IsOf file := by
  simp [Document.IsOf, noted, Datum.entry?_object]

/-- Two documents of a file, one of them under a name that is no number, and one of another file under `doc_1`. -/
def mixed : Shelf :=
  Client.open_ ⟨[⟨[("doc_1", noted "x" "b"), ("old", noted "y" "a"), ("doc_0", noted "z" "a")]⟩], some 0⟩

/-- Two new documents take the places of the three, and they stay when the update is repeated. -/
theorem update_mixed : ∃ next, mixed.update [noted "u" "a", noted "v" "a"] (.text "a") = .ok (["doc_0", "doc_1"], next) ∧
    (next.contents.storedFor "a").Perm [("doc_0", noted "u" "a"), ("doc_1", noted "v" "a")] ∧
    next.contents.document? "doc_1" = some (noted "v" "a") ∧ next.contents.document? "old" = none ∧
    ∃ again, next.update [noted "u" "a", noted "v" "a"] (.text "a") = .ok (["doc_0", "doc_1"], again) ∧
      again.contents.document? "doc_1" = some (noted "v" "a") := by
  have hattached : mixed.Attached := attached_open_ (by simp)
  have hdocs : ∀ d ∈ [noted "u" "a", noted "v" "a"], d.IsOf "a" := by
    intro d hd
    rcases List.mem_pair.mp hd with rfl | rfl
    · exact isOf_noted "u" "a"
    · exact isOf_noted "v" "a"
  obtain ⟨next, hupdate, -, hstored, hfound, hothers, again, hupdate', -, hsame⟩ :=
    update_replaces_file hattached hdocs
  have hold : "old" ∈ (mixed.contents.storedFor "a").map Prod.fst := by decide +kernel
  have hone : next.contents.document? "doc_1" = some (noted "v" "a") := hfound 1 (by simp)
  refine ⟨next, hupdate, hstored, hone, ?_, again, hupdate', ?_⟩
  · rw [hothers "old" (by decide +kernel), if_pos hold]
  · rw [hsame, hone]

end Shelf

end CodeAudit
