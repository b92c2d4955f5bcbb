import CodeAudit.Files.Change
import CodeAudit.Proofs.Files.Path

/-!
# Trees of files and the paths through them

A tree of files is looked at through `Files.entry?` only. This module says which trees can stand on a disk, how
the view changes when an entry is put or entries are dropped, and where a path leads when a name is added to it
or when entries are dropped from the tree.

## Main definitions

* `Files.Rooted`, `Files.WellFormed` — every entry stands in a directory; besides, it stands
  once and has a proper name.
* `Files.Prunes` — a tree from which entries were dropped.

## Main results

* `Files.exists_followFrom_append` — a path can be followed in two parts.
* `Files.followFrom_of_prunes` — with entries dropped, a path still leads to the same place or
  nowhere.
-/

namespace CodeAudit

open List

namespace Files

variable {e : Entry} {p : Path}

variable {place : Place} {fs : Files}

/-! ## The view -/

@[simp] lemma entry?_nil (fs : Files) : fs.entry? [] = some .folder := rfl

lemma entry?_of_ne_nil (fs : Files) (h : place ≠ []) :
    fs.entry? place = (fs.entries.find? (·.1 == place)).map (·.2) := by
  simp [ entry?, h]

/-- What stands at a place is listed. -/
lemma mem_of_entry?_eq_some (hne : place ≠ [])
    (h : fs.entry? place = some e) : (place, e) ∈ fs.entries := by
  rw [entry?_of_ne_nil fs hne, Option.map_eq_some_iff] at h
  obtain ⟨⟨p, e'⟩, hfind, rfl⟩ := h
  have hp : p = place := by simpa using find?_some hfind
  exact hp ▸ mem_of_find?_eq_some hfind

/-- What stands at a place after an entry was put. -/
lemma entry?_put (fs : Files) (hne : place ≠ []) (e : Entry) (q : Place) :
    entry? (fs.put place e) q = if q = place then some e else fs.entry? q := by
  by_cases hq : q = []
  · subst hq
    simp [Ne.symm hne]
  rw [entry?_of_ne_nil _ hq, entry?_of_ne_nil fs hq, put]
  split
  · rename_i hany
    -- the place is listed, and its entry is replaced
    rw [find?_map]
    have hcomp : ((fun x : Place × Entry => x.1 == q) ∘
        fun x : Place × Entry => if x.1 == place then (x.1, e) else (x.1, x.2)) = fun x => x.1 == q := by
      funext x
      by_cases hx : x.1 = place <;> simp [hx]
    rw [hcomp, Option.map_map]
    by_cases heq : q = place
    · subst heq
      have hsome : (fs.entries.find? (fun x => x.1 == q)).isSome := by
        simpa using hany
      obtain ⟨y, hy⟩ := Option.isSome_iff_exists.mp hsome
      have hyq : y.1 = q := by simpa using find?_some hy
      simp [hy, hyq]
    · rw [if_neg heq]
      cases hfind : fs.entries.find? (fun x => x.1 == q) with
      | none => rfl
      | some y =>
        have hyq : y.1 = q := by simpa using find?_some hfind
        simp [hyq, heq]
  · rename_i hany
    -- the place is new, and its entry comes last
    rw [find?_append]
    by_cases heq : q = place
    · subst heq
      have hnone : fs.entries.find? (fun x => x.1 == q) = none := by
        rw [find?_eq_none]
        intro x hx hxq
        exact hany (any_eq_true.mpr ⟨x, hx, hxq⟩)
      simp [hnone]
    · have hlast : [(place, e)].find? (fun x => x.1 == q) = none := by simp [Ne.symm heq]
      rw [if_neg heq, hlast, Option.or_none]

/-- A tree with the entries at some places only. -/
def only (fs : Files) (keep : Place → Bool) : Files :=
  { fs with entries := fs.entries.filter fun (place, _) => keep place }

/-- What stands at a place after entries were dropped. -/
lemma entry?_only (fs : Files) (keep : Place → Bool) {q : Place} (hq : q ≠ []) :
    entry? (fs.only keep) q = if keep q then fs.entry? q else none := by
  rw [entry?_of_ne_nil _ hq, entry?_of_ne_nil fs hq, only, find?_filter]
  split
  · rename_i hkeep
    congr 2
    funext x
    by_cases hx : x.1 = q <;> simp [hx, hkeep]
  · rename_i hkeep
    rw [Option.map_eq_none_iff, find?_eq_none]
    intro x _
    by_cases hx : x.1 = q <;> simp [hx, hkeep]

/-! ## Trees that can stand on a disk -/

/-- Every entry stands in a directory, and the working directory is there. -/
structure Rooted (fs : Files) : Prop where
  parent : ∀ place e, fs.entry? place = some e → fs.entry? place.dropLast = some .folder
  here : fs.entry? fs.here = some .folder

/-- It is enough to look at the entries that are listed. -/
lemma Rooted.of_entries (h : ∀ x ∈ fs.entries, fs.entry? x.1.dropLast = some .folder)
    (hhere : fs.entry? fs.here = some .folder) : fs.Rooted := by
  refine ⟨fun place e he => ?_, hhere⟩
  by_cases hnil : place = []
  · rw [hnil]
    rfl
  · exact h _ (mem_of_entry?_eq_some hnil he)

/-- Above an entry there are directories only. -/
lemma Rooted.entry?_of_append (h : fs.Rooted) {rest : List String}
    (hrest : rest ≠ []) (he : fs.entry? (place ++ rest) = some e) : fs.entry? place = some .folder := by
  induction rest using reverseRecOn generalizing e with
  | nil => exact absurd rfl hrest
  | append_singleton rest name ih =>
    have hparent := h.parent _ _ he
    rw [← append_assoc, dropLast_concat] at hparent
    by_cases hnil : rest = []
    · rwa [hnil, append_nil] at hparent
    · exact ih hnil hparent

/-- A tree that can stand on a disk: besides, every place is listed once, and its names are proper and not
too long. -/
structure WellFormed (fs : Files) : Prop extends Rooted fs where
  distinct : (fs.entries.map (·.1)).Nodup
  ne_nil : ∀ x ∈ fs.entries, x.1 ≠ []
  named : ∀ x ∈ fs.entries, ∀ name ∈ x.1, Path.IsName name ∧ isTooLong name = false

namespace WellFormed

variable {fs : Files}

/-- What is listed stands at its place. -/
lemma entry?_of_mem (h : fs.WellFormed) (hmem : (place, e) ∈ fs.entries) :
    fs.entry? place = some e := by
  rw [entry?_of_ne_nil fs (h.ne_nil _ hmem)]
  cases hfind : fs.entries.find? (fun x => x.1 == place) with
  | none => simpa using find?_eq_none.mp hfind _ hmem
  | some x =>
    have hx : x.1 = place := by simpa using find?_some hfind
    have heq : x = (place, e) :=
      inj_on_of_nodup_map h.distinct (mem_of_find?_eq_some hfind) hmem hx
    simp [heq]

/-- The names on the way to an entry are proper and not too long. -/
lemma isName_of_entry?_eq_some (h : fs.WellFormed) (he : fs.entry? place = some e)
    {name : String} (hname : name ∈ place) : Path.IsName name ∧ isTooLong name = false := by
  have hne : place ≠ [] := by
    rintro rfl
    simp at hname
  exact h.named _ (mem_of_entry?_eq_some hne he) _ hname

end WellFormed

/-! ## Paths -/

section Follow

variable {fs : Files} {links : ℕ} {place : Place} {name : String} {rest : List String}

variable {target : String} {names : List String} {base : Place}

@[simp] lemma followFrom_nil : fs.followFrom links place [] = .ok place := by
  rw [followFrom]

/-- Nothing is found below a place where nothing stands. -/
lemma followFrom_cons_missing (h : fs.entry? place = none) :
    fs.followFrom links place (name :: rest) = .error .missing := by
  rw [followFrom, h]

/-- Nothing is found below a place where no directory stands. -/
lemma followFrom_cons_notFolder (h : fs.entry? place = some e) (he : e ≠ .folder) :
    fs.followFrom links place (name :: rest) = .error .notFolder := by
  rw [followFrom, h]
  cases e with
  | folder => exact absurd rfl he
  | _ => rfl

/-- A double point leads to the directory above. -/
lemma followFrom_cons_points (h : fs.entry? place = some .folder) :
    fs.followFrom links place (".." :: rest) = fs.followFrom links place.dropLast rest := by
  rw [followFrom, h]
  simp

lemma followFrom_cons_long (h : fs.entry? place = some .folder) (hname : name ≠ "..")
    (hlong : isTooLong name = true) :
    fs.followFrom links place (name :: rest) = .error .longName := by
  rw [followFrom, h]
  simp [hname, hlong]

/-- A name of anything but a link leads one step down. -/
lemma followFrom_cons_down (h : fs.entry? place = some .folder) (hname : name ≠ "..")
    (hlong : isTooLong name = false) (hlink : ∀ target, fs.entry? (place ++ [name]) ≠ some (.link target)) :
    fs.followFrom links place (name :: rest) = fs.followFrom links (place ++ [name]) rest := by
  rw [followFrom, h]
  simp [hname, hlong]

lemma followFrom_cons_link_zero (h : fs.entry? place = some .folder)
    (hname : name ≠ "..") (hlong : isTooLong name = false)
    (hlink : fs.entry? (place ++ [name]) = some (.link target)) :
    fs.followFrom 0 place (name :: rest) = .error .linkLoop := by
  rw [followFrom, h]
  simp only [beq_iff_eq, hname, hlong, Bool.false_eq_true, if_false]
  split <;> simp_all

/-- A name of a link leads on with the names of its target. -/
lemma followFrom_cons_link (h : fs.entry? place = some .folder) (hname : name ≠ "..") (hlong : isTooLong name = false)
    (hlink : fs.entry? (place ++ [name]) = some (.link target)) :
    fs.followFrom (links + 1) place (name :: rest) =
      fs.followFrom links (if (Path.ofString target).isAbsolute then [] else place)
        ((Path.ofString target).names ++ rest) := by
  rw [followFrom, h]
  simp only [beq_iff_eq, hname, hlong, Bool.false_eq_true, if_false]
  split <;> simp_all

/-- A path on leads somewhere only from a directory, and not with a name that is too long. -/
lemma of_followFrom_cons_ok {target : Place} (h : fs.followFrom links place (name :: rest) = .ok target) :
    fs.entry? place = some .folder ∧ (name ≠ ".." → isTooLong name = false) := by
  have hplace : fs.entry? place = some .folder := by
    cases hentry : fs.entry? place with
    | none => simp [followFrom_cons_missing hentry] at h
    | some e =>
      by_contra hne
      have he : e ≠ .folder := fun heq => hne (by rw [heq])
      simp [followFrom_cons_notFolder hentry he] at h
  refine ⟨hplace, fun hname => ?_⟩
  by_contra hlong
  rw [followFrom_cons_long hplace hname (by simpa using hlong)] at h
  cases h

/-- A path that leads nowhere leads nowhere with more names. -/
lemma followFrom_append_of_error {fault : FileFault}
    (h : fs.followFrom links place names = .error fault) (more : List String) :
    fs.followFrom links place (names ++ more) = .error fault := by
  fun_induction followFrom fs links place names with
  | case1 => cases h
  | case2 _ _ _ _ hplace => rw [cons_append, followFrom_cons_missing hplace, h]
  | case3 _ _ name _ hplace hname ih =>
    obtain rfl : name = ".." := by simpa using hname
    rw [cons_append, followFrom_cons_points hplace, ih h]
  | case4 _ _ _ _ hplace hname hlong =>
    rw [cons_append, followFrom_cons_long hplace (by simpa using hname) hlong, h]
  | case5 _ _ _ hplace hname hlong _ hlink =>
    rw [cons_append,
      followFrom_cons_link_zero hplace (by simpa using hname) (by simpa using hlong) hlink, h]
  | case6 _ _ _ hplace hname hlong _ hlink _ _ ih =>
    rw [cons_append,
      followFrom_cons_link hplace (by simpa using hname) (by simpa using hlong) hlink,
      ← append_assoc]
    exact ih h
  | case7 _ _ _ _ hplace hname hlong hlink ih =>
    rw [cons_append,
      followFrom_cons_down hplace (by simpa using hname) (by simpa using hlong) hlink, ih h]
  | case8 _ _ _ _ _ he hplace => rw [cons_append, followFrom_cons_notFolder hplace he, h]

/-- **A path can be followed in two parts**, the second with the links that are left after the first. -/
lemma exists_followFrom_append (h : fs.followFrom links place names = .ok base) :
    ∃ left, ∀ more, fs.followFrom links place (names ++ more) = fs.followFrom left base more := by
  fun_induction followFrom fs links place names with
  | case1 links place =>
    obtain rfl : place = base := Except.ok.inj h
    exact ⟨links, fun more => rfl⟩
  | case2 => cases h
  | case3 _ _ name _ hplace hname ih =>
    obtain rfl : name = ".." := by simpa using hname
    obtain ⟨left, hleft⟩ := ih h
    exact ⟨left, fun more => by rw [cons_append, followFrom_cons_points hplace, hleft]⟩
  | case4 => cases h
  | case5 => cases h
  | case6 _ _ _ hplace hname hlong _ hlink _ _ ih =>
    obtain ⟨left, hleft⟩ := ih h
    refine ⟨left, fun more => ?_⟩
    rw [cons_append,
      followFrom_cons_link hplace (by simpa using hname) (by simpa using hlong) hlink,
      ← append_assoc]
    exact hleft more
  | case7 _ _ _ _ hplace hname hlong hlink ih =>
    obtain ⟨left, hleft⟩ := ih h
    refine ⟨left, fun more => ?_⟩
    rw [cons_append,
      followFrom_cons_down hplace (by simpa using hname) (by simpa using hlong) hlink, hleft]
  | case8 => cases h

/-- A name of anything but a link, added to a path that leads to a directory, leads one step down. -/
lemma followFrom_concat (hbase : fs.followFrom links place names = .ok base) (hfolder : fs.entry? base = some .folder)
    (hname : name ≠ "..") (hlong : isTooLong name = false)
    (hlink : ∀ target, fs.entry? (base ++ [name]) ≠ some (.link target)) :
    fs.followFrom links place (names ++ [name]) = .ok (base ++ [name]) := by
  obtain ⟨left, hleft⟩ := exists_followFrom_append hbase
  rw [hleft, followFrom_cons_down hfolder hname hlong hlink, followFrom_nil]

/-- A double point, added to a path that leads to a directory, leads one step up. -/
lemma followFrom_concat_points
    (hbase : fs.followFrom links place names = .ok base) (hfolder : fs.entry? base = some .folder) :
    fs.followFrom links place (names ++ [".."]) = .ok base.dropLast := by
  obtain ⟨left, hleft⟩ := exists_followFrom_append hbase
  rw [hleft, followFrom_cons_points hfolder, followFrom_nil]

end Follow

/-- A path that leads to something finds it. -/
lemma find_of_follow (hplace : fs.follow p = .ok place)
    (he : fs.entry? place = some e) : fs.find p = .ok (place, e) := by
  simp [find, hplace, he, bind, Except.bind]

/-- What a path finds stands where it leads. -/
lemma of_find (h : fs.find p = .ok (place, e)) :
    fs.follow p = .ok place ∧ fs.entry? place = some e := by
  unfold find at h
  cases hfollow : fs.follow p with
  | error fault => simp [hfollow, bind, Except.bind] at h
  | ok target =>
    cases hentry : fs.entry? target with
    | none => simp [hfollow, hentry, bind, Except.bind] at h
    | some e' =>
      obtain ⟨rfl, rfl⟩ : target = place ∧ e' = e := by simpa [hfollow, hentry, bind, Except.bind] using h
      exact ⟨rfl, hentry⟩

lemma exists?_of_follow (hplace : fs.follow p = .ok place)
    (he : fs.entry? place = some e) : fs.exists? p = .ok true := by
  rw [ exists?, find_of_follow hplace he]

/-- A path that counts as a directory leads to one. -/
lemma follow_of_isFolder (h : fs.isFolder p = true) :
    ∃ place, fs.follow p = .ok place ∧ fs.entry? place = some .folder := by
  unfold isFolder find at h
  cases hfollow : fs.follow p with
  | error e => simp [hfollow, bind, Except.bind] at h
  | ok place =>
    refine ⟨place, rfl, ?_⟩
    cases hentry : fs.entry? place with
    | none => simp [hfollow, hentry, bind, Except.bind] at h
    | some e => cases e <;> simp_all [bind, Except.bind]

/-- A tree from which entries were dropped: at every place stands what stood there before, or nothing. -/
def Prunes (before after : Files) : Prop :=
  ∀ place, after.entry? place = before.entry? place ∨ after.entry? place = none

lemma Prunes.refl (fs : Files) : Prunes fs fs := fun _ => .inl rfl

lemma prunes_only (fs : Files) (keep : Place → Bool) : Prunes fs (fs.only keep) := by
  intro place
  by_cases hne : place = []
  · simp [hne]
  · rw [entry?_only fs keep hne]
    split_ifs
    · exact .inl rfl
    · exact .inr rfl

/-- **With entries dropped, a path still leads to the same place or nowhere**, unless its last name is that of
a link.

**Proof sketch.** Induction on the way through the whole tree. As long as the entries on the way are there,
both ways are the same. Where one is dropped, the way ends, because at least the last name is still to be
followed. -/
lemma followFrom_of_prunes {before after : Files} (hprunes : Prunes before after) {links : ℕ}
    {base target : Place} {names : List String} {name : String} (hname : name ≠ "..")
    (hbase : before.followFrom links place names = .ok base)
    (hlink : ∀ t, before.entry? (base ++ [name]) ≠ some (.link t))
    (htarget : after.followFrom links place (names ++ [name]) = .ok target) : target = base ++ [name] := by
  -- what is no link in the whole tree is none after the change
  have hnolink : ∀ q, (∀ t, before.entry? q ≠ some (.link t)) → ∀ t, after.entry? q ≠ some (.link t) := by
    intro q hq t
    rcases hprunes q with h | h
    · exact h ▸ hq t
    · simp [h]
  fun_induction followFrom before links place names with
  | case1 links place =>
    obtain rfl : place = base := Except.ok.inj hbase
    obtain ⟨hplace, hlong⟩ := of_followFrom_cons_ok htarget
    rw [nil_append, followFrom_cons_down hplace hname (hlong hname) (hnolink _ hlink)] at htarget
    simpa using htarget.symm
  | case2 => cases hbase
  | case3 links place first rest _ hfirst ih =>
    obtain rfl : first = ".." := by simpa using hfirst
    obtain ⟨hplace, -⟩ := of_followFrom_cons_ok htarget
    rw [cons_append, followFrom_cons_points hplace] at htarget
    exact ih hbase htarget
  | case4 => cases hbase
  | case5 => cases hbase
  | case6 place first rest _ hfirst hlong t hlinked links _ ih =>
    obtain ⟨hplace, -⟩ := of_followFrom_cons_ok htarget
    rcases hprunes (place ++ [first]) with hsame | hgone
    · rw [cons_append, followFrom_cons_link hplace (by simpa using hfirst) (by simpa using hlong)
        (hsame.trans hlinked), ← append_assoc] at htarget
      exact ih hbase htarget
    · -- the link is dropped, and the way ends there
      rw [cons_append, followFrom_cons_down hplace (by simpa using hfirst) (by simpa using hlong)
        (by simp [hgone])] at htarget
      cases rest <;> simp [followFrom_cons_missing hgone] at htarget
  | case7 links place first rest _ hfirst hlong hfree ih =>
    obtain ⟨hplace, -⟩ := of_followFrom_cons_ok htarget
    rw [cons_append, followFrom_cons_down hplace (by simpa using hfirst) (by simpa using hlong)
      (hnolink _ hfree)] at htarget
    exact ih hbase htarget
  | case8 => cases hbase

end Files

end CodeAudit
