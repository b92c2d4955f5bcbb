import CodeAudit.Proofs.Files.Straight

/-!
# Visits of trees

A visit lists every file below a directory once, provided that all directories between them are entered. Links are
listed among the files unless they lead to directories. This holds of every tree if the visit does not go through links,
and of a tree without links below the directory in any case.

## Main definitions

* `Files.LinkFree`, `Files.LinkFreeBelow` — a tree without links, and one without links below a
  place.
* `Files.Open` — all directories on a way down are entered.

## Main results

* `Files.mem_visit_iff` — the files that a visit lists.
* `Files.nodup_visit_straight` — no file is listed twice.
-/

namespace CodeAudit.Files

open List

variable {place : Place}

/-- A tree without links. -/
def LinkFree (fs : Files) : Prop :=
  ∀ place target, fs.entry? place ≠ some (.link target)

/-- No link stands at a place or below it. -/
def LinkFreeBelow (fs : Files) (top : Place) : Prop :=
  ∀ names target, fs.entry? (top ++ names) ≠ some (.link target)

variable {fs : Files}

/-! ## Places and their paths -/

/-- Where names lead from a place if there are no links. -/
def straight (place : Place) (names : List String) : Place :=
  names.foldl (fun place name => if name = ".." then place.dropLast else place ++ [name]) place

/-- Double points are gone where names lead. -/
lemma points_not_mem_straight (hplace : ".." ∉ place) (names : List String) :
    ".." ∉ straight place names := by
  induction names generalizing place with
  | nil => exact hplace
  | cons name names ih =>
    rw [straight, foldl_cons, ← straight]
    apply ih
    split_ifs with hname
    · exact fun hmem => hplace (dropLast_subset _ hmem)
    · simp [hplace, Ne.symm hname]

namespace LinkFree

/-- Without links, every place is reached without links. -/
lemma isStraight (h : fs.LinkFree) {place : Place} (hplace : ".." ∉ place) : fs.Straight place :=
  ⟨hplace, fun above _ => h above⟩

lemma below (h : fs.LinkFree) (top : Place) : fs.LinkFreeBelow top := fun _ => h _

/-- Without links, a path names the place to which its names lead straight. -/
lemma resolveFrom_eq (h : fs.LinkFree) (links : ℕ) (place : Place) (names : List String) :
    fs.resolveFrom links place names = .ok (straight place names) := by
  induction names generalizing place with
  | nil =>
    rw [resolveFrom]
    rfl
  | cons name names ih =>
    rw [resolveFrom, straight, foldl_cons]
    split_ifs with hname hname' hname'
    · rw [ih, straight]
    · exact absurd (by simpa using hname) hname'
    · exact absurd (by simpa using hname') hname
    · split
      · rename_i target hlink
        exact absurd hlink (h _ _)
      · rw [ih, straight]

/-- Without links, what a path names depends only on the working directory. -/
lemma resolve_eq {before after : Files} (hbefore : before.LinkFree) (hafter : after.LinkFree)
    (hhere : after.here = before.here) (p : Path) : after.resolve p = before.resolve p := by
  rw [resolve, resolve, hbefore.resolveFrom_eq, hafter.resolveFrom_eq, start, start, hhere]

end LinkFree

lemma LinkFreeBelow.append {top : Place} (h : fs.LinkFreeBelow top) (names : List String) :
    fs.LinkFreeBelow (top ++ names) := by
  intro rest target
  rw [append_assoc]
  exact h _ target

namespace WellFormed

/-- No place is deeper than the number of entries: the places above it are all listed. -/
lemma length_le_entries (hfs : fs.WellFormed) {place : Place} {e : Entry} (he : fs.entry? place = some e) :
    place.length ≤ fs.entries.length := by
  set above := (List.range place.length).map fun i => place.take (i + 1) with habove
  have hnodup : above.Nodup := by
    refine Nodup.map_on (fun i hi j hj heq => ?_) nodup_range
    rw [mem_range] at hi hj
    have hlen := congrArg List.length heq
    simp only [length_take] at hlen
    omega
  have hsub : above ⊆ fs.entries.map (·.1) := by
    intro q hq
    obtain ⟨i, hi, rfl⟩ := mem_map.mp hq
    rw [mem_range] at hi
    have hne : place.take (i + 1) ≠ [] := by
      rw [← length_pos_iff, length_take]
      omega
    have hentry : ∃ e', fs.entry? (place.take (i + 1)) = some e' := by
      by_cases hrest : place.drop (i + 1) = []
      · refine ⟨e, ?_⟩
        rwa [take_of_length_le (drop_eq_nil_iff.mp hrest)]
      · have hsplit : fs.entry? (place.take (i + 1) ++ place.drop (i + 1)) = some e := by
          rwa [take_append_drop]
        exact ⟨.folder, hfs.toRooted.entry?_of_append hrest hsplit⟩
    obtain ⟨e', he'⟩ := hentry
    exact mem_map.mpr ⟨_, mem_of_entry?_eq_some hne he', rfl⟩
  have hle := (hnodup.subperm hsub).length_le
  simpa [habove] using hle

end WellFormed

/-! ## Entries of a directory -/

/-- The entry from which a name in a directory is taken. -/
lemma eq_of_child {x : Place × Entry} {child : String × Entry}
    (h : (match x.1.getLast? with
      | some name => if x.1.dropLast == place then some (name, x.2) else none
      | none => none) = some child) : x = (place ++ [child.1], child.2) := by
  split at h
  · rename_i last hlast
    split_ifs at h with hplace
    obtain rfl : (last, x.2) = child := Option.some.inj h
    obtain rfl : x.1.dropLast = place := by simpa using hplace
    rw [dropLast_append_getLast? _ hlast]
  · cases h

lemma mem_children {name : String} {e : Entry} :
    (name, e) ∈ fs.children place ↔ (place ++ [name], e) ∈ fs.entries := by
  simp only [children, mem_filterMap]
  constructor
  · rintro ⟨x, hmem, h⟩
    rwa [← eq_of_child h]
  · intro hmem
    exact ⟨_, hmem, by simp⟩

namespace WellFormed

/-- The names in a directory are those of the entries right below it. -/
lemma mem_names_iff (hfs : fs.WellFormed) {place : Place} {name : String} :
    name ∈ (fs.children place).map (·.1) ↔ ∃ e, fs.entry? (place ++ [name]) = some e := by
  constructor
  · intro hmem
    obtain ⟨⟨name', e⟩, hchild, rfl⟩ := mem_map.mp hmem
    exact ⟨e, hfs.entry?_of_mem (mem_children.mp hchild)⟩
  · rintro ⟨e, he⟩
    exact mem_map.mpr ⟨(name, e), mem_children.mpr (mem_of_entry?_eq_some (by simp) he), rfl⟩

/-- No name stands twice in a directory. -/
lemma nodup_names (hfs : fs.WellFormed) (place : Place) : ((fs.children place).map (·.1)).Nodup := by
  have hentries : fs.entries.Nodup := hfs.distinct.of_map
  have hchildren : (fs.children place).Nodup := by
    refine hentries.filterMap fun x y child hx hy => ?_
    rw [eq_of_child hx, eq_of_child hy]
  refine Nodup.map_on (fun x hx y hy hname => ?_) hchildren
  have hx' := hfs.entry?_of_mem (mem_children.mp hx)
  have hy' := hfs.entry?_of_mem (mem_children.mp hy)
  rw [hname, hy'] at hx'
  exact Prod.ext hname (Option.some.inj hx').symm

end WellFormed

/-! ## Visits -/

/-- All directories on the way down are entered. -/
def Open (enter : Path → String → Bool) (place : Place) (way : List String) : Prop :=
  ∀ dir name, dir ++ [name] <+: way → enter (pathOf (place ++ dir)) name = true

lemma open_nil (enter : Path → String → Bool) (place : Place) : Open enter place [] := by
  intro dir name h
  simp at h

/-- The first directory on the way down is entered, and so are the others. -/
lemma open_cons_iff {enter : Path → String → Bool} {first : String} {way : List String} :
    Open enter place (first :: way) ↔
      enter (pathOf place) first = true ∧ Open enter (place ++ [first]) way := by
  constructor
  · intro h
    refine ⟨by simpa using h [] first (by simp), fun dir name hway => ?_⟩
    have := h (first :: dir) name (by simpa using hway)
    simpa using this
  · rintro ⟨hfirst, h⟩ dir name hway
    cases dir with
    | nil =>
      obtain rfl : name = first := by simpa using hway
      simpa using hfirst
    | cons dir rest =>
      obtain ⟨rfl, hrest⟩ : dir = first ∧ rest ++ [name] <+: way := by simpa using hway
      simpa using h rest name hrest

section Visit

variable {throughLinks : Bool} {enter : Path → String → Bool} {depth : ℕ} {place : Place}

/-- A visit lists the files of a directory, then what is found in the directories that stand in it and are entered. -/
lemma visit_succ (hfs : fs.WellFormed) (hlinks : throughLinks = true → fs.LinkFreeBelow place)
    (hplace : fs.entry? place = some .folder) :
    fs.visit throughLinks enter (depth + 1) (pathOf place) =
      (((fs.children place).map (·.1)).filter fun name => !fs.isFolder (pathOf (place ++ [name]))).map
          (fun name => (pathOf place, name)) ++
        (((fs.children place).map (·.1)).filter fun name =>
          fs.entry? (place ++ [name]) = some .folder ∧ enter (pathOf place) name).flatMap
            fun name => fs.visit throughLinks enter depth (pathOf (place ++ [name])) := by
  have hlist : fs.list (pathOf place) = .ok ((fs.children place).map (·.1)) := by
    simp [list, hfs.find_pathOf_of_mem hplace (by simp), bind, Except.bind]
  -- what counts as a directory and is not passed over as a link is one
  have hdown : ∀ name, name ∈ (fs.children place).map (·.1) →
      (fs.isFolder (pathOf (place ++ [name])) = true ∧
          (throughLinks || !fs.isLink (pathOf (place ++ [name]))) = true ↔
        fs.entry? (place ++ [name]) = some .folder) := by
    intro name hname
    obtain ⟨e, he⟩ := hfs.mem_names_iff.mp hname
    by_cases hlink : ∃ target, e = .link target
    · obtain ⟨target, rfl⟩ := hlink
      have hthrough : throughLinks = false := by
        by_contra hne
        exact hlinks (by simpa using hne) _ target he
      simp [hthrough, (hfs.isLink_pathOf_iff hplace name).mpr ⟨target, he⟩, he]
    · have hnot : fs.isLink (pathOf (place ++ [name])) = false := by
        rw [← Bool.not_eq_true, hfs.isLink_pathOf_iff hplace, he]
        rintro ⟨target, htarget⟩
        exact hlink ⟨target, Option.some.inj htarget⟩
      rw [hnot, hfs.isFolder_straight_iff (hfs.straight_of_mem he fun target heq => hlink ⟨target, heq⟩)]
      simp
  rw [visit, hlist]
  simp only [partition_eq_filter_filter, Function.comp_def]
  rw [Sequence.flatMap_ite_nil fun name => throughLinks || !fs.isLink (extend (pathOf place) name)]
  simp only [filter_filter, extend_pathOf]
  congr 2
  refine filter_congr fun name hname => ?_
  rw [Bool.eq_iff_iff]
  simp only [Bool.and_eq_true, decide_eq_true_eq, ← hdown name hname]
  tauto

/-- A visit lists nothing where no directory stands. -/
lemma visit_eq_nil (hfs : fs.WellFormed) (hplace : fs.Straight place) (hfolder : fs.entry? place ≠ some .folder) :
    fs.visit throughLinks enter depth (pathOf place) = [] := by
  cases depth with
  | zero => rfl
  | succ depth =>
    rw [visit]
    split
    · rfl
    · rename_i names hlist
      refine absurd ((hfs.isFolder_straight_iff hplace).mp ?_) hfolder
      unfold list at hlist
      unfold isFolder
      cases hfind : fs.find (pathOf place) with
      | error e => simp [hfind, bind, Except.bind] at hlist
      | ok found =>
        obtain ⟨target, e⟩ := found
        cases e with
        | folder => rfl
        | _ => simp [hfind, bind, Except.bind] at hlist

/-- **The files that a visit lists** are those below the directory, at most so many levels deep, to which only
directories lead that are entered. A link is listed unless it leads to a directory; it is never gone through.

**Proof sketch.** Induction on the number of levels. A file right below the directory has nothing on its way;
any other one is reached through the first directory on its way, which is entered. -/
theorem mem_visit_iff (hfs : fs.WellFormed) (hplace : fs.Straight place)
    (hlinks : throughLinks = true → fs.LinkFreeBelow place) {dir : Path} {name : String} :
    (dir, name) ∈ fs.visit throughLinks enter depth (pathOf place) ↔
      ∃ way e, way.length < depth ∧ dir = pathOf (place ++ way) ∧ fs.entry? (place ++ way ++ [name]) = some e ∧
        fs.isFolder (pathOf (place ++ way ++ [name])) = false ∧ Open enter place way := by
  induction depth generalizing place with
  | zero => simp [visit]
  | succ depth ih =>
    by_cases hfolder : fs.entry? place = some .folder
    · rw [visit_succ hfs hlinks hfolder]
      simp only [mem_append, mem_map (f := fun name => (pathOf place, name)), mem_filter,
        mem_flatMap, hfs.mem_names_iff, decide_eq_true_eq, Bool.not_eq_true']
      constructor
      · rintro (⟨n, ⟨⟨e, he⟩, hfile⟩, heq⟩ | ⟨n, ⟨-, he, henter⟩, hmem⟩)
        · obtain ⟨rfl, rfl⟩ : pathOf place = dir ∧ n = name := by simpa using heq
          exact ⟨[], e, by simp, by simp, by simpa using he, by simpa using hfile, open_nil enter place⟩
        · have hdown := hfs.straight_of_mem he (by simp)
          obtain ⟨way, e', hlen, rfl, he', hfile, hopen⟩ := (ih hdown fun h => (hlinks h).append [n]).mp hmem
          refine ⟨n :: way, e', by simpa using hlen, by simp, by simpa using he', by simpa using hfile, ?_⟩
          exact open_cons_iff.mpr ⟨henter, hopen⟩
      · rintro ⟨way, e, hlen, rfl, he, hfile, hopen⟩
        cases way with
        | nil =>
          rw [append_nil] at he hfile
          exact .inl ⟨name, ⟨⟨e, he⟩, hfile⟩, by simp⟩
        | cons first way =>
          have hsplit : fs.entry? (place ++ [first] ++ (way ++ [name])) = some e := by simpa using he
          have hfirst := hfs.toRooted.entry?_of_append (by simp) hsplit
          have hdown := hfs.straight_of_mem hfirst (by simp)
          rw [open_cons_iff] at hopen
          refine .inr ⟨first, ⟨⟨_, hfirst⟩, hfirst, hopen.1⟩, (ih hdown fun h => (hlinks h).append [first]).mpr ?_⟩
          exact ⟨way, e, by simpa using hlen, by simp, by simpa using he, by simpa using hfile, hopen.2⟩
    · rw [visit_eq_nil hfs hplace hfolder]
      refine ⟨fun hmem => by simp at hmem, ?_⟩
      rintro ⟨way, e, -, -, he, -⟩
      rw [append_assoc] at he
      exact absurd (hfs.toRooted.entry?_of_append (by simp) he) hfolder

/-- **No file is listed twice.**

**Proof sketch.** Induction on the number of levels. The names in a directory are different; what is found in
one of its directories has a path that goes through it. -/
theorem nodup_visit_straight (hfs : fs.WellFormed) (hplace : fs.Straight place)
    (hlinks : throughLinks = true → fs.LinkFreeBelow place) :
    (fs.visit throughLinks enter depth (pathOf place)).Nodup := by
  induction depth generalizing place with
  | zero => exact nodup_nil
  | succ depth ih =>
    by_cases hfolder : fs.entry? place = some .folder
    · rw [visit_succ hfs hlinks hfolder, nodup_append]
      have hentered : ∀ n ∈ ((fs.children place).map (·.1)).filter fun name =>
          fs.entry? (place ++ [name]) = some .folder ∧ enter (pathOf place) name, fs.Straight (place ++ [n]) := by
        intro n hn
        simp only [mem_filter, decide_eq_true_eq] at hn
        exact hfs.straight_of_mem hn.2.1 (by simp)
      have hbelow : ∀ n, throughLinks = true → fs.LinkFreeBelow (place ++ [n]) := fun n h => (hlinks h).append [n]
      refine ⟨?_, ?_, ?_⟩
      · refine Nodup.map (fun n m heq => (Prod.mk.inj heq).2) ?_
        exact (hfs.nodup_names place).filter _
      · rw [nodup_flatMap]
        refine ⟨fun n hn => ih (hentered n hn) (hbelow n), ?_⟩
        refine Pairwise.imp_of_mem (fun {n m} hn hm hne => ?_) ((hfs.nodup_names place).filter _)
        rintro ⟨dir, name⟩ hin hin'
        obtain ⟨way, -, -, rfl, -⟩ := (mem_visit_iff hfs (hentered n hn) (hbelow n)).mp hin
        obtain ⟨way', -, -, heq, -⟩ := (mem_visit_iff hfs (hentered m hm) (hbelow m)).mp hin'
        exact hne (by simpa [pathOf] using congrArg (·.names[place.length]?) heq)
      · intro x hx y hy heq
        obtain ⟨n, -, rfl⟩ := mem_map.mp hx
        obtain ⟨m, hm, hin⟩ := mem_flatMap.mp hy
        subst heq
        obtain ⟨way, -, -, heq, -⟩ := (mem_visit_iff hfs (hentered m hm) (hbelow m)).mp hin
        simp [pathOf] at heq
    · rw [visit_eq_nil hfs hplace hfolder]
      exact nodup_nil

/-- Without links, no file is listed twice, whether or not links are gone through. -/
lemma nodup_visit (hfs : fs.WellFormed) (h : fs.LinkFree) (hplace : ".." ∉ place) :
    (fs.visit throughLinks enter depth (pathOf place)).Nodup :=
  nodup_visit_straight hfs (h.isStraight hplace) fun _ => h.below place

end Visit

end CodeAudit.Files
