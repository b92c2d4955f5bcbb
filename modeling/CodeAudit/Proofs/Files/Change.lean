import CodeAudit.Proofs.Files.Tree
import CodeAudit.Proofs.Outcome

/-!
# What changes of a tree of files leave alone

Making directories only adds directories where nothing stood. Writing a file changes what that file holds, and all
paths still lead to their places. Removing a directory through a path that ends in a proper name takes away what
stands there and below it, and nothing else, whether it succeeds or not.

## Main definitions

* `Files.Guides` — a tree in which paths still lead where they led.
* `Files.without` — a tree without what stands below a place.

## Main results

* `Files.entry?_removeTree_of_not_prefix` — what a removal leaves alone.
* `Files.entry?_removeTree_below` — what a removal takes away.
-/

namespace CodeAudit.Files

open List

variable {place base : Place} {name : String} {e : Entry} {before after : Files} {p dir : Path}

variable {fs : Files}

/-! ## Paths that still lead to their places -/

/-- Names that lead to a place still lead there if directories and links are still there, and no link has come to a place
on the way. On the way something stands everywhere but at the end. -/
lemma followFrom_of_kept {gs : Files} {links : ℕ} {target : Place} {names : List String}
    (hfolder : ∀ q, fs.entry? q = some .folder → gs.entry? q = some .folder)
    (hlink : ∀ q t, fs.entry? q = some (.link t) → gs.entry? q = some (.link t))
    (hfree : ∀ q, (fs.entry? q = none → q = target) → (∀ t, fs.entry? q ≠ some (.link t)) →
      ∀ t, gs.entry? q ≠ some (.link t))
    (htarget : fs.followFrom links place names = .ok target) : gs.followFrom links place names = .ok target := by
  fun_induction followFrom fs links place names with
  | case1 => rwa [followFrom_nil]
  | case2 | case4 | case5 | case8 => cases htarget
  | case3 _ _ name _ hplace hname ih =>
    obtain rfl : name = ".." := by simpa using hname
    rw [followFrom_cons_points (hfolder _ hplace), ih htarget]
  | case6 _ _ _ hplace hname hlong _ hlink' _ _ ih =>
    rw [followFrom_cons_link (hfolder _ hplace) (by simpa using hname) (by simpa using hlong) (hlink _ _ hlink')]
    exact ih htarget
  | case7 _ place name rest hplace hname hlong hlink' ih =>
    have hend : fs.entry? (place ++ [name]) = none → place ++ [name] = target := by
      intro hnone
      cases rest with
      | nil =>
        rw [followFrom_nil] at htarget
        exact Except.ok.inj htarget
      | cons next rest =>
        rw [followFrom_cons_missing hnone] at htarget
        cases htarget
    rw [followFrom_cons_down (hfolder _ hplace) (by simpa using hname) (by simpa using hlong) (hfree _ hend hlink'),
      ih htarget]

/-- A tree in which paths still lead where they led: all directories and links are still there, and there are no
other links. -/
structure Guides (before after : Files) : Prop where
  here : after.here = before.here
  folder : ∀ place, before.entry? place = some .folder → after.entry? place = some .folder
  link : ∀ place t, before.entry? place = some (.link t) → after.entry? place = some (.link t)
  ne_link : ∀ place, (∀ t, before.entry? place ≠ some (.link t)) → ∀ t, after.entry? place ≠ some (.link t)

namespace Guides

lemma follow_eq (h : Guides before after) {target : Place}
    (htarget : before.follow p = .ok target) : after.follow p = .ok target := by
  have hstart : after.start p = before.start p := by simp [start, h.here]
  rw [follow, hstart]
  exact followFrom_of_kept h.folder h.link (fun q _ => h.ne_link q) htarget

end Guides

lemma here_put (fs : Files) (place : Place) (e : Entry) : (fs.put place e).here = fs.here := by
  unfold put
  split <;> rfl

/-- An entry can be put into a directory of a rooted tree, unless it takes the place of another directory. -/
lemma Rooted.put (hfs : fs.Rooted)
    (hplace : fs.entry? place = some .folder) (hold : fs.entry? (place ++ [name]) = some .folder → e = .folder) :
    (fs.put (place ++ [name]) e).Rooted := by
  have hput := entry?_put fs (show place ++ [name] ≠ [] by simp) e
  -- all directories are still there
  have hfolder : ∀ q, fs.entry? q = some .folder → entry? (fs.put (place ++ [name]) e) q = some .folder := by
    intro q hq
    rw [hput]
    split_ifs with heq
    · rw [hold (heq ▸ hq)]
    · exact hq
  refine ⟨fun q e' he' => ?_, ?_⟩
  · rw [hput] at he'
    split_ifs at he' with heq
    · rw [heq, dropLast_concat]
      exact hfolder _ hplace
    · exact hfolder _ (hfs.parent _ _ he')
  · rw [here_put]
    exact hfolder _ hfs.here

/-! ## Added directories -/

/-- A tree to which directories were added: what stood somewhere still stands there, and where nothing stood
there is nothing or a directory. -/
structure Grows (before after : Files) : Prop where
  here : after.here = before.here
  kept : ∀ place e, before.entry? place = some e → after.entry? place = some e
  added : ∀ place, before.entry? place = none → after.entry? place = none ∨ after.entry? place = some .folder

namespace Grows

lemma refl (fs : Files) : Grows fs fs := ⟨rfl, fun _ _ h => h, fun _ h => .inl h⟩

lemma trans {first second third : Files} (h : Grows first second) (h' : Grows second third) :
    Grows first third := by
  refine ⟨h'.here.trans h.here, fun place e he => h'.kept _ _ (h.kept _ _ he), fun place hnone => ?_⟩
  rcases h.added place hnone with hnone' | hfolder
  · exact h'.added place hnone'
  · exact .inr (h'.kept _ _ hfolder)

lemma guides (h : Grows before after) : Guides before after where
  here := h.here
  folder _ hfolder := h.kept _ _ hfolder
  link _ _ hlink := h.kept _ _ hlink
  ne_link place hlink t := by
    cases hentry : before.entry? place with
    | none => rcases h.added place hentry with h' | h' <;> simp [h']
    | some e =>
      rw [h.kept _ _ hentry, ← hentry]
      exact hlink t

/-- Where directories were added, the same files stand. -/
lemma file_iff (h : Grows before after) {bytes : List UInt8} {time : ℤ} :
    after.entry? place = some (.file bytes time) ↔ before.entry? place = some (.file bytes time) := by
  refine ⟨fun hafter => ?_, h.kept _ _⟩
  cases hbefore : before.entry? place with
  | none => rcases h.added place hbefore with hnone | hfolder <;> simp_all
  | some e => rw [← h.kept _ _ hbefore, hafter]

end Grows

/-- What making one directory does. -/
lemma of_makeFolder_ok (h : before.makeFolder p = .ok after) :
    ∃ parent, before.follow p.parent = .ok parent ∧ before.entry? parent = some .folder ∧ p.names ≠ [] ∧
      p.name ≠ ".." ∧ isTooLong p.name = false ∧ before.entry? (parent ++ [p.name]) = none ∧
      after = before.put (parent ++ [p.name]) .folder := by
  unfold makeFolder at h
  cases hparent : before.follow p.parent with
  | error e => simp [hparent, bind, Except.bind] at h
  | ok parent =>
    simp only [hparent, bind, Except.bind] at h
    split at h
    · cases h
    · rename_i hfolder
      split_ifs at h with hnames hlong htaken
      refine ⟨parent, rfl, hfolder, ?_, ?_, by simpa using hlong, by simpa using htaken,
        (Except.ok.inj h).symm⟩
      · rintro hnil
        simp [hnil] at hnames
      · intro hup
        simp [hup] at hnames
    · cases h

/-- Making one directory adds it. -/
lemma grows_of_makeFolder (h : before.makeFolder p = .ok after) : Grows before after := by
  obtain ⟨parent, -, -, -, -, -, hnone, rfl⟩ := of_makeFolder_ok h
  have hput := entry?_put before (show parent ++ [p.name] ≠ [] by simp) .folder
  refine ⟨here_put _ _ _, fun place e he => ?_, fun place hplace => ?_⟩
  · have hne : place ≠ parent ++ [p.name] := by
      rintro rfl
      simp [hnone] at he
    rw [hput, if_neg hne, he]
  · rw [hput]
    split_ifs
    · exact .inr rfl
    · exact .inl hplace

/-- A directory that was made stands in a directory, so a rooted tree stays rooted. -/
lemma Rooted.makeFolder (hb : before.Rooted) (h : before.makeFolder p = .ok after) : after.Rooted := by
  obtain ⟨parent, -, hfolder, -, -, -, -, rfl⟩ := of_makeFolder_ok h
  exact hb.put hfolder fun _ => rfl

/-- A path is its parent and its last name. -/
lemma names_eq_parent_concat (h : p.names ≠ []) : p.names = p.parent.names ++ [p.name] := by
  rw [Path.parent, Path.name, getLast?_eq_some_getLast h, Option.getD_some,
    dropLast_append_getLast h]

/-- The path of a directory that was made leads to it. -/
lemma leads_of_makeFolder (h : before.makeFolder p = .ok after) :
    ∃ place, after.follow p = .ok place ∧ after.entry? place = some .folder := by
  have hgrows := grows_of_makeFolder h
  obtain ⟨parent, hparent, hfolder, hnames, hname, hlong, -, hafter⟩ := of_makeFolder_ok h
  have hentry : after.entry? (parent ++ [p.name]) = some .folder := by
    rw [hafter, entry?_put _ (by simp), if_pos rfl]
  refine ⟨parent ++ [p.name], ?_, hentry⟩
  rw [follow, names_eq_parent_concat hnames]
  exact followFrom_concat (hgrows.guides.follow_eq hparent) (hgrows.kept _ _ hfolder) hname hlong (by simp [hentry])

/-- What making a directory does, whether it succeeds or not: directories are added. A rooted tree stays rooted,
and if a directory is made in it, the path leads there. -/
structure Made (before : Files) (p : Path) (outcome : Except Fault Unit) (after : Files) : Prop where
  grows : Grows before after
  rooted : before.Rooted → after.Rooted
  leads : before.Rooted → outcome = .ok () →
    ∃ place, after.follow p = .ok place ∧ after.entry? place = some .folder

/-- One directory is made, or it is already there. -/
lemma made_ensureFolder (fs : Files) (p : Path) :
    Made fs p (fs.ensureFolder p).1 (fs.ensureFolder p).2 := by
  unfold ensureFolder
  split
  · rename_i after h
    exact ⟨grows_of_makeFolder h, fun hfs => hfs.makeFolder h, fun _ _ => leads_of_makeFolder h⟩
  · refine ⟨Grows.refl _, id, fun _ hok => follow_of_isFolder ?_⟩
    dsimp only at hok
    split_ifs at hok with hfolder
    exact hfolder

/-- **Making a directory with its parents** only adds directories, and if it succeeds the path leads to one.

**Proof sketch.** Induction on the names, last name first. If the parent is missing, it is made first, and then
as well as otherwise one directory is made or is already there. -/
lemma made_ensureFoldersFrom (root : String) (fs : Files) (names : List String) :
    Made fs ⟨root, names.reverse⟩ (ensureFoldersFrom root fs names).1 (ensureFoldersFrom root fs names).2 := by
  induction names with
  | nil =>
    refine ⟨Grows.refl _, id, fun hfs _ => ⟨fs.start ⟨root, []⟩, by simp [follow, ensureFoldersFrom], ?_⟩⟩
    unfold start
    split
    · rfl
    · exact hfs.here
  | cons name parents ih =>
    rw [ensureFoldersFrom]
    split
    · split
      · rename_i middle hparents
        rw [hparents] at ih
        have hlast := made_ensureFolder middle ⟨root, (name :: parents).reverse⟩
        exact ⟨ih.grows.trans hlast.grows, fun hfs => hlast.rooted (ih.rooted hfs),
          fun hfs => hlast.leads (ih.rooted hfs)⟩
      · rename_i f middle hparents
        rw [hparents] at ih
        exact ⟨ih.grows, ih.rooted, fun _ hok => by cases hok⟩
    · exact made_ensureFolder fs _

/-- Making a directory with its parents only adds directories, and if it succeeds the path leads to one. -/
lemma made_ensureFolders (fs : Files) (p : Path) :
    Made fs p (fs.ensureFolders p).1 (fs.ensureFolders p).2 := by
  have hmade := made_ensureFoldersFrom p.root fs p.names.reverse
  rwa [reverse_reverse] at hmade

/-! ## Trees that can stand on a disk -/

/-- The places that are listed after an entry was put. -/
lemma map_fst_put (fs : Files) (place : Place) (e : Entry) : (fs.put place e).entries.map (·.1) =
    if place ∈ fs.entries.map (·.1) then fs.entries.map (·.1) else fs.entries.map (·.1) ++ [place] := by
  have hany : (fs.entries.any (·.1 == place)) = true ↔ place ∈ fs.entries.map (·.1) := by
    simp [any_eq_true]
  unfold put
  split_ifs with hlisted hmem hmem
  · rw [map_map]
    refine map_congr_left fun x _ => ?_
    simp only [Function.comp_apply]
    split_ifs <;> rfl
  · exact absurd (hany.mp hlisted) hmem
  · exact absurd (hany.mpr hmem) hlisted
  · simp

/-- After an entry was put, only its place can be new. -/
lemma exists_of_mem_put {x : Place × Entry} (h : x ∈ (fs.put place e).entries) :
    (∃ y ∈ fs.entries, y.1 = x.1) ∨ x.1 = place := by
  have hplace : x.1 ∈ (fs.put place e).entries.map (·.1) := mem_map_of_mem h
  rw [map_fst_put] at hplace
  split_ifs at hplace with hmem
  · exact .inl (mem_map.mp hplace)
  · rcases mem_append.mp hplace with hold | hnew
    · exact .inl (mem_map.mp hold)
    · exact .inr (mem_singleton.mp hnew)

namespace WellFormed

variable {fs : Files}

/-- An entry with a proper name can be put into a directory, unless it takes the place of another directory. -/
lemma put (hfs : fs.WellFormed) (hplace : fs.entry? place = some .folder)
    (hname : Path.IsName name) (hlong : isTooLong name = false)
    (hold : fs.entry? (place ++ [name]) = some .folder → e = .folder) : (fs.put (place ++ [name]) e).WellFormed where
  toRooted := hfs.toRooted.put hplace hold
  distinct := by
    rw [map_fst_put]
    split_ifs with hmem
    · exact hfs.distinct
    · rw [← concat_eq_append]
      exact hfs.distinct.concat hmem
  ne_nil x hx := by
    rcases exists_of_mem_put hx with ⟨y, hy, heq⟩ | heq
    · exact heq ▸ hfs.ne_nil y hy
    · simp [heq]
  named x hx n hn := by
    rcases exists_of_mem_put hx with ⟨y, hy, heq⟩ | heq
    · exact hfs.named y hy n (heq ▸ hn)
    · rw [heq, mem_append, mem_singleton] at hn
      rcases hn with hn | rfl
      · exact hfs.isName_of_entry?_eq_some hplace hn
      · exact ⟨hname, hlong⟩

/-- A directory under a name that was read can be made in a tree that can stand on a disk. -/
lemma makeFolder (hfs : fs.WellFormed)
    (hp : ∀ name ∈ p.names, name ≠ "" ∧ name ≠ "." ∧ '/' ∉ name.toList) (h : fs.makeFolder p = .ok after) :
    after.WellFormed := by
  obtain ⟨parent, -, hfolder, hnames, hpoints, hlong, hnone, rfl⟩ := of_makeFolder_ok h
  have hmem : p.name ∈ p.names := by
    rw [names_eq_parent_concat hnames]
    simp
  obtain ⟨hempty, hpoint, hslash⟩ := hp _ hmem
  exact hfs.put hfolder ⟨hempty, hpoint, hpoints, hslash⟩ hlong fun _ => rfl

lemma ensureFolder (hfs : fs.WellFormed)
    (hp : ∀ name ∈ p.names, name ≠ "" ∧ name ≠ "." ∧ '/' ∉ name.toList) : (fs.ensureFolder p).2.WellFormed := by
  unfold Files.ensureFolder
  split
  · rename_i after h
    exact hfs.makeFolder hp h
  · exact hfs

/-- **Directories under names that were read can be made in a tree that can stand on a disk.** -/
lemma ensureFolders (hfs : fs.WellFormed)
    (hp : ∀ name ∈ p.names, name ≠ "" ∧ name ≠ "." ∧ '/' ∉ name.toList) : (fs.ensureFolders p).2.WellFormed := by
  have hfrom : ∀ names : List String, (∀ name ∈ names, name ≠ "" ∧ name ≠ "." ∧ '/' ∉ name.toList) →
      (ensureFoldersFrom p.root fs names).2.WellFormed := by
    intro names hnames
    induction names with
    | nil => exact hfs
    | cons name parents ih =>
      have hpath : ∀ n ∈ (⟨p.root, (name :: parents).reverse⟩ : Path).names, n ≠ "" ∧ n ≠ "." ∧ '/' ∉ n.toList :=
        fun n hn => hnames n (mem_reverse.mp hn)
      have ih := ih fun n hn => hnames n (mem_cons_of_mem _ hn)
      rw [ensureFoldersFrom]
      split
      · split
        · rename_i middle hparents
          rw [hparents] at ih
          exact ih.ensureFolder hpath
        · rename_i f middle hparents
          rwa [hparents] at ih
      · exact hfs.ensureFolder hpath
  exact hfrom _ fun name hname => hp name (mem_reverse.mp hname)

end WellFormed

/-! ## Written files -/

/-- Setting the bytes of a file puts a file where the path leads, and no directory or link stood there. -/
lemma of_writeAt {change : List UInt8 → List UInt8} (h : before.writeAt p change = .ok after) :
    ∃ place old, before.follow p = .ok place ∧ place ≠ [] ∧
      (before.entry? place = none ∧ old = [] ∨ ∃ time, before.entry? place = some (.file old time)) ∧
      after = before.put place (.file (change old) now) := by
  unfold writeAt at h
  cases hplace : before.follow p with
  | error e => simp [hplace, bind, Except.bind] at h
  | ok place =>
    simp only [hplace, bind, Except.bind] at h
    have hne : ∀ e, before.entry? place = e → e ≠ some .folder → place ≠ [] := by
      rintro e he hfolder rfl
      exact hfolder he.symm
    split at h
    · rename_i bytes time hentry
      exact ⟨place, bytes, rfl, hne _ hentry (by simp), .inr ⟨time, hentry⟩, (Except.ok.inj h).symm⟩
    · cases h
    · cases h
    · rename_i hentry
      split at h
      · exact ⟨place, [], rfl, hne _ hentry (by simp), .inl ⟨hentry, rfl⟩, (Except.ok.inj h).symm⟩
      · cases h
      · cases h

/-- Where a file is put in the place of a file or of nothing, paths still lead to their places. -/
lemma guides_put (hne : place ≠ [])
    (hentry : fs.entry? place = none ∨ ∃ bytes time, fs.entry? place = some (.file bytes time)) (bytes : List UInt8)
    (time : ℤ) : Guides fs (fs.put place (.file bytes time)) := by
  have hother : ∀ {q e}, fs.entry? q = some e → (∀ bytes time, e ≠ .file bytes time) → q ≠ place := by
    rintro q e he hfile rfl
    rcases hentry with hnone | ⟨bytes, time, hsome⟩
    · simp [hnone] at he
    · exact hfile bytes time (Option.some.inj (he.symm.trans hsome))
  refine ⟨here_put _ _ _, fun q hq => ?_, fun q t hq => ?_, fun q hq t => ?_⟩
  · rw [entry?_put _ hne, if_neg (hother hq (by simp)), hq]
  · rw [entry?_put _ hne, if_neg (hother hq (by simp)), hq]
  · rw [entry?_put _ hne]
    split_ifs
    · simp
    · exact hq t

/-- **What was written into a file is read from it.** -/
lemma readBytes_of_write {s : String} (h : before.write p s = .ok after) :
    after.readBytes p = .ok (Text.encode s) := by
  obtain ⟨place, old, hplace, hne, hentry, rfl⟩ := of_writeAt (Outcome.mapError_eq_ok.mp h)
  have hguides := guides_put hne (hentry.imp (·.1) fun ⟨time, hfile⟩ => ⟨old, time, hfile⟩) (Text.encode s) now
  have hfind := find_of_follow (hguides.follow_eq hplace) (by rw [entry?_put _ hne, if_pos rfl])
  rw [readBytes, hfind]

/-! ## Removed directories -/

/-- What stands anywhere but below a place. -/
def without (fs : Files) (base : Place) : Files :=
  fs.only fun place => !isBelow base place

/-- What a removal leaves, whether it succeeds or not: the tree as it was, or without what stands below a
directory, or without the directory as well. -/
lemma removeTree_cases (fs : Files) (p : Path) :
    (fs.removeTree p).2 = fs ∨
      fs.isLink p = false ∧ ∃ base, fs.follow p = .ok base ∧
        ((fs.removeTree p).2 = fs.without base ∨
          ∃ again, (fs.without base).follow p = .ok again ∧
            (fs.removeTree p).2 = (fs.without base).only (· != again)) := by
  unfold removeTree
  split_ifs with hlink
  · exact .inl rfl
  · cases hfollow : fs.follow p with
    | error e => simp [find, hfollow, bind, Except.bind]
    | ok base =>
      cases hentry : fs.entry? base with
      | none => simp [find, hfollow, hentry, bind, Except.bind]
      | some e =>
        cases e with
        | folder =>
          refine .inr ⟨by simpa using hlink, base, rfl, ?_⟩
          simp only [find, hfollow, hentry, bind, Except.bind]
          split
          · rename_i again hagain
            exact .inr ⟨again, hagain, rfl⟩
          · exact .inl rfl
        | _ => simp [find, hfollow, hentry, bind, Except.bind]

/-- A place lies below another exactly if it is longer and starts with it. -/
lemma isBelow_iff : isBelow base place = true ↔ base <+: place ∧ place ≠ base := by
  simp only [isBelow, Bool.and_eq_true, isPrefixOf_iff_prefix, decide_eq_true_eq]
  constructor
  · rintro ⟨hstarts, hlt⟩
    exact ⟨hstarts, fun heq => by simp [heq] at hlt⟩
  · rintro ⟨hstarts, hne⟩
    refine ⟨hstarts, lt_of_le_of_ne hstarts.length_le fun heq => hne ?_⟩
    exact (hstarts.eq_of_length heq).symm

lemma entry?_without_of_not_prefix (fs : Files) (h : ¬ base <+: place) :
    entry? (fs.without base) place = fs.entry? place := by
  by_cases hne : place = []
  · simp [hne]
  · rw [without, entry?_only _ _ hne, if_pos]
    simp [Bool.eq_false_iff, isBelow_iff, h]

lemma entry?_without_below (fs : Files) (h : base <+: place) (hne : place ≠ base) :
    entry? (fs.without base) place = none := by
  have hnil : place ≠ [] := by
    rintro rfl
    exact hne (prefix_nil.mp h).symm
  rw [without, entry?_only _ _ hnil, if_neg]
  simp [isBelow_iff, h, hne]

/-- The path of an entry of a directory that is no link leads into the directory, also in a tree from which
entries were dropped. -/
lemma follow_extend_of_prunes (hprunes : Prunes before after) (hhere : after.here = before.here) (hname : name ≠ "..")
    (hlink : before.isLink (extend dir name) = false) {target : Place}
    (hbase : before.follow dir = .ok base) (htarget : after.follow (extend dir name) = .ok target) :
    target = base ++ [name] := by
  have hparent : (extend dir name).parent = dir := by simp [extend, Path.parent]
  have hlast : (extend dir name).name = name := by simp [extend, Path.name]
  have hfree : ∀ t, before.entry? (base ++ [name]) ≠ some (.link t) := by
    intro t ht
    simp [isLink, hparent, hlast, hbase, ht] at hlink
  have hstart : after.start (extend dir name) = before.start dir := by
    simp [start, extend, Path.isAbsolute, hhere]
  rw [follow, hstart] at htarget
  exact followFrom_of_prunes hprunes hname hbase hfree htarget

/-- **What a removal leaves alone**: everything but the named entry of the directory and what stands below
it, whether the removal succeeds or not. -/
theorem entry?_removeTree_of_not_prefix (fs : Files) (hname : name ≠ "..")
    (houtside : ∀ base, fs.follow dir = .ok base → ¬ base ++ [name] <+: place) :
    entry? (fs.removeTree (extend dir name)).2 place = fs.entry? place := by
  rcases removeTree_cases fs (extend dir name) with hsame | ⟨hlink, target, htarget, hremoved⟩
  · rw [hsame]
  -- the path leads somewhere, so the directory does
  obtain ⟨base, hbase⟩ : ∃ base, fs.follow dir = .ok base := by
    cases hdir : fs.follow dir with
    | ok base => exact ⟨base, rfl⟩
    | error e =>
      have hnone : fs.follow (extend dir name) = .error e := followFrom_append_of_error hdir [name]
      rw [hnone] at htarget
      cases htarget
  have hplace := houtside base hbase
  obtain rfl := follow_extend_of_prunes (Prunes.refl fs) rfl hname hlink hbase htarget
  rcases hremoved with hremoved | ⟨again, hagain, hremoved⟩
  · rw [hremoved, entry?_without_of_not_prefix fs hplace]
  · obtain rfl := follow_extend_of_prunes (prunes_only fs _) rfl hname hlink hbase hagain
    by_cases hnil : place = []
    · simp [hnil]
    · rw [hremoved, entry?_only _ _ hnil, if_pos, entry?_without_of_not_prefix fs hplace]
      simp only [bne_iff_ne, ne_eq]
      rintro rfl
      exact hplace prefix_rfl

/-- **What a removal takes away**: everything below the directory to which the path leads, also if the
removal fails afterwards. -/
theorem entry?_removeTree_below (fs : Files) (hlink : fs.isLink p = false)
    (hbase : fs.follow p = .ok base) (hfolder : fs.entry? base = some .folder)
    (hbelow : base <+: place) (hne : place ≠ base) :
    entry? (fs.removeTree p).2 place = none := by
  have hgone := entry?_without_below fs hbelow hne
  have hnil : place ≠ [] := by
    rintro rfl
    simp at hgone
  unfold removeTree
  simp only [hlink, Bool.false_eq_true, if_false, find, hbase, hfolder, bind, Except.bind]
  split
  · rename_i again _
    have hagain := entry?_only (fs.without base) (· != again) hnil
    rw [hgone, ite_self] at hagain
    exact hagain
  · exact hgone

end CodeAudit.Files
