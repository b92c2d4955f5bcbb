import CodeAudit.Proofs.Files.Change
import CodeAudit.Proofs.Files.Visit

/-!
# Trees that differ in the contents of one file

What paths lead to, which names a directory has and what a visit meets do not depend on the contents of files. This
module says so for two trees that differ in the contents of one file.

## Main definitions

* `Files.Twins` — two trees that differ at most in the contents of the file at a place.

## Main results

* `Files.Twins.follow_eq`, `Files.Twins.resolve_eq`, `Files.Twins.visit_eq` — twins agree
  on paths and visits.
* `Files.Twins.readText_eq` — they agree on the texts of all other files.
-/

namespace CodeAudit.Files

variable {bytes : List UInt8} {time : ℤ} {path : Path} {place : Place} {text : String}

/-- **Two trees that differ at most in the contents of the file at a place.** -/
structure Twins (p : Place) (fs gs : Files) : Prop where
  here : gs.here = fs.here
  length : gs.entries.length = fs.entries.length
  elsewhere : ∀ q, q ≠ p → gs.entry? q = fs.entry? q
  file : ∃ bytes bytes' time, fs.entry? p = some (.file bytes time) ∧ gs.entry? p = some (.file bytes' time)
  names : ∀ place, (gs.children place).map (·.1) = (fs.children place).map (·.1)

/-- The name under which an entry is listed in a directory does not depend on what stands there. -/
lemma map_fst_children (fs : Files) (place : Place) :
    (fs.children place).map (·.1) = (fs.entries.map (·.1)).filterMap fun at_ =>
      at_.getLast?.bind fun name => if at_.dropLast == place then some name else none := by
  rw [children, List.map_filterMap, List.filterMap_map]
  congr 1
  funext x
  cases hlast : x.1.getLast? with
  | none => simp [hlast]
  | some name =>
    by_cases hplace : x.1.dropLast = place
    · simp [hlast, hplace]
    · simp [hlast, hplace]

/-- A tree and the one in which a file got other contents are twins. -/
lemma twins_put {fs : Files} {p : Place} (h : fs.entry? p = some (.file bytes time)) (bytes' : List UInt8) :
    Twins p fs (fs.put p (.file bytes' time)) := by
  have hne : p ≠ [] := by
    rintro rfl
    simp at h
  have hmem := mem_of_entry?_eq_some hne h
  have hkeys : (fs.put p (.file bytes' time)).entries.map (·.1) = fs.entries.map (·.1) := by
    rw [map_fst_put, if_pos (List.mem_map_of_mem hmem)]
  refine ⟨here_put _ _ _, by simpa using congrArg List.length hkeys, fun q hq => by rw [entry?_put fs hne, if_neg hq],
    ⟨bytes, bytes', time, h, by rw [entry?_put fs hne, if_pos rfl]⟩, fun place => ?_⟩
  rw [map_fst_children, map_fst_children, hkeys]

/-- **Names lead to the same places in trees that differ in the contents of files only.** -/
lemma followFrom_congr {fs gs : Files}
    (h : ∀ q, gs.entry? q = fs.entry? q ∨
      ∃ bytes bytes' time, fs.entry? q = some (.file bytes time) ∧ gs.entry? q = some (.file bytes' time))
    (links : ℕ) (place : Place) (names : List String) :
    gs.followFrom links place names = fs.followFrom links place names := by
  have hsame : ∀ {q o}, fs.entry? q = o → (∀ bytes time, o ≠ some (.file bytes time)) → gs.entry? q = o := by
    intro q o hq ho
    rcases h q with heq | ⟨bytes, bytes', time, hfile, -⟩
    · exact heq.trans hq
    · exact absurd (hq.symm.trans hfile) (ho _ _)
  have hfolder : ∀ {q}, fs.entry? q = some .folder → gs.entry? q = some .folder := fun hq => hsame hq (by simp)
  fun_induction followFrom fs links place names with
  | case1 => exact followFrom_nil
  | case2 _ _ _ _ hplace => exact followFrom_cons_missing (hsame hplace (by simp))
  | case3 _ _ name _ hplace hname ih =>
    obtain rfl : name = ".." := by simpa using hname
    rw [followFrom_cons_points (hfolder hplace), ih]
  | case4 _ _ _ _ hplace hname hlong => exact followFrom_cons_long (hfolder hplace) (by simpa using hname) hlong
  | case5 _ _ _ hplace hname hlong _ hlink =>
    exact followFrom_cons_link_zero (hfolder hplace) (by simpa using hname) (by simpa using hlong)
      (hsame hlink (by simp))
  | case6 _ _ _ hplace hname hlong _ hlink _ _ ih =>
    rw [followFrom_cons_link (hfolder hplace) (by simpa using hname) (by simpa using hlong) (hsame hlink (by simp))]
    exact ih
  | case7 _ place name _ hplace hname hlong hlink ih =>
    have hlink' : ∀ target, gs.entry? (place ++ [name]) ≠ some (.link target) := by
      rcases h (place ++ [name]) with heq | ⟨bytes, bytes', time, -, hfile⟩
      · exact fun target => heq ▸ hlink target
      · simp [hfile]
    rw [followFrom_cons_down (hfolder hplace) (by simpa using hname) (by simpa using hlong) hlink', ih]
  | case8 _ place _ _ _ he hplace =>
    rcases h place with heq | ⟨bytes, bytes', time, -, hfile⟩
    · exact followFrom_cons_notFolder (heq.trans hplace) he
    · exact followFrom_cons_notFolder hfile (by simp)

namespace Twins

variable {p : Place} {fs gs : Files}

lemma symm (h : Twins p fs gs) : Twins p gs fs where
  here := h.here.symm
  length := h.length.symm
  elsewhere q hq := (h.elsewhere q hq).symm
  file := by
    obtain ⟨bytes, bytes', time, hfs, hgs⟩ := h.file
    exact ⟨bytes', bytes, time, hgs, hfs⟩
  names place := (h.names place).symm

/-- What stands at a place is the same in twins, or a file in both. -/
lemma entry?_cases (h : Twins p fs gs) (q : Place) :
    gs.entry? q = fs.entry? q ∨
      ∃ bytes bytes' time, fs.entry? q = some (.file bytes time) ∧ gs.entry? q = some (.file bytes' time) := by
  by_cases hq : q = p
  · exact .inr (hq ▸ h.file)
  · exact .inl (h.elsewhere q hq)

/-- Anything but a file is the same in twins. -/
lemma entry?_eq_of_ne_file (h : Twins p fs gs) {q : Place} {o : Option Entry} (hq : fs.entry? q = o)
    (ho : ∀ bytes time, o ≠ some (.file bytes time)) : gs.entry? q = o := by
  rcases h.entry?_cases q with heq | ⟨bytes, bytes', time, hfile, -⟩
  · exact heq.trans hq
  · exact absurd (hq.symm.trans hfile) (ho _ _)

lemma ne_link (h : Twins p fs gs) {q : Place} (hq : ∀ target, fs.entry? q ≠ some (.link target)) (target : String) :
    gs.entry? q ≠ some (.link target) := by
  intro hlink
  exact hq target (h.symm.entry?_eq_of_ne_file hlink (by simp))

/-- **Paths lead to the same places in twins.** -/
lemma followFrom_eq (h : Twins p fs gs) (links : ℕ) (place : Place) (names : List String) :
    gs.followFrom links place names = fs.followFrom links place names :=
  followFrom_congr h.entry?_cases links place names

lemma start_eq (h : Twins p fs gs) (path : Path) : gs.start path = fs.start path := by
  rw [start, start, h.here]

lemma follow_eq (h : Twins p fs gs) (path : Path) : gs.follow path = fs.follow path := by
  rw [follow, follow, h.start_eq, h.followFrom_eq]

/-- Paths name the same places in twins. -/
lemma resolveFrom_eq (h : Twins p fs gs) (links : ℕ) (place : Place) (names : List String) :
    gs.resolveFrom links place names = fs.resolveFrom links place names := by
  fun_induction resolveFrom fs links place names with
  | case1 => rw [resolveFrom]
  | case2 _ _ _ _ hname ih => rw [resolveFrom, if_pos hname, ih]
  | case3 _ _ _ hname _ hlink =>
    rw [resolveFrom, if_neg hname, h.entry?_eq_of_ne_file hlink (by simp)]
  | case4 _ _ _ hname _ hlink _ _ ih =>
    rw [resolveFrom, if_neg hname, h.entry?_eq_of_ne_file hlink (by simp)]
    exact ih
  | case5 _ _ _ _ hname hlink ih =>
    rw [resolveFrom, if_neg hname]
    split
    · rename_i target hlink'
      exact absurd hlink' (h.ne_link hlink target)
    · exact ih

lemma resolve_eq (h : Twins p fs gs) (path : Path) : gs.resolve path = fs.resolve path := by
  rw [resolve, resolve, h.length, h.start_eq, h.resolveFrom_eq]

/-- What a path leads to is the same in twins, unless it leads to the file in which they differ. -/
lemma find_cases (h : Twins p fs gs) (path : Path) :
    gs.find path = fs.find path ∨ fs.follow path = .ok p ∧
      ∃ bytes bytes' time, fs.find path = .ok (p, .file bytes time) ∧ gs.find path = .ok (p, .file bytes' time) := by
  cases hfollow : fs.follow path with
  | error e =>
    left
    rw [find, find, h.follow_eq, hfollow]
    rfl
  | ok place =>
    by_cases hplace : place = p
    · subst hplace
      obtain ⟨bytes, bytes', time, hfs, hgs⟩ := h.file
      exact .inr ⟨rfl, bytes, bytes', time, find_of_follow hfollow hfs,
        find_of_follow ((h.follow_eq path).trans hfollow) hgs⟩
    · left
      simp only [find, h.follow_eq, hfollow, bind, Except.bind, h.elsewhere place hplace]

lemma isFolder_eq (h : Twins p fs gs) (path : Path) : gs.isFolder path = fs.isFolder path := by
  rw [isFolder, isFolder]
  rcases h.find_cases path with heq | ⟨-, bytes, bytes', time, hfs, hgs⟩
  · rw [heq]
  · rw [hfs, hgs]

lemma exists?_eq (h : Twins p fs gs) (path : Path) : gs.exists? path = fs.exists? path := by
  rw [ exists?, exists?]
  rcases h.find_cases path with heq | ⟨-, bytes, bytes', time, hfs, hgs⟩
  · rw [heq]
  · rw [hfs, hgs]

lemma list_eq (h : Twins p fs gs) (path : Path) : gs.list path = fs.list path := by
  rw [list, list]
  rcases h.find_cases path with heq | ⟨-, bytes, bytes', time, hfs, hgs⟩
  · rw [heq]
    cases fs.find path with
    | error e => rfl
    | ok x =>
      obtain ⟨place, e⟩ := x
      cases e with
      | folder =>
        change Except.ok _ = Except.ok _
        rw [h.names]
      | _ => rfl
  · rw [hfs, hgs]
    rfl

lemma isLink_eq (h : Twins p fs gs) (path : Path) : gs.isLink path = fs.isLink path := by
  rw [isLink, isLink, h.follow_eq]
  cases fs.follow path.parent with
  | error e => rfl
  | ok place =>
    rcases h.entry?_cases (place ++ [path.name]) with heq | ⟨bytes, bytes', time, hfs, hgs⟩
    · simp only [heq]
    · simp only [hfs, hgs]

lemma depthLimit_eq (h : Twins p fs gs) : gs.depthLimit = fs.depthLimit := by
  rw [depthLimit, depthLimit, h.length]

/-- **A visit meets the same files in twins.** -/
lemma visit_eq (h : Twins p fs gs) (throughLinks : Bool) (enter : Path → String → Bool) (depth : ℕ) (dir : Path) :
    gs.visit throughLinks enter depth dir = fs.visit throughLinks enter depth dir := by
  induction depth generalizing dir with
  | zero => rfl
  | succ depth ih => simp only [visit, h.list_eq, h.isFolder_eq, h.isLink_eq, ih]

/-- **The texts of all other files are the same in twins.** -/
lemma readText_eq (h : Twins p fs gs) {path : Path} (hpath : fs.follow path ≠ .ok p) :
    gs.readText path = fs.readText path := by
  rcases h.find_cases path with heq | ⟨hp, -⟩
  · rw [readText, readText, readBytes, readBytes, heq]
  · exact absurd hp hpath

end Twins

variable {fs : Files}

/-- The file in which twins differ is found under its path in both. -/
lemma Twins.find_pathOf {gs : Files} {p : Place} (h : Twins p fs gs) (hfs : fs.WellFormed) {bytes' : List UInt8}
    {time' : ℤ} (hfile : fs.entry? p = some (.file bytes time)) (hfile' : gs.entry? p = some (.file bytes' time')) :
    fs.find (pathOf p) = .ok (p, .file bytes time) ∧ gs.find (pathOf p) = .ok (p, .file bytes' time') := by
  have hfollow := hfs.follow_pathOf_of_mem hfile (by simp)
  exact ⟨find_of_follow hfollow hfile, find_of_follow ((h.follow_eq _).trans hfollow) hfile'⟩

/-- The text of a file that a path leads to. -/
lemma readText_of_find (h : fs.find path = .ok (place, .file bytes time)) : fs.readText path = .ok (textOf bytes) := by
  rw [readText, readBytes, h]
  rfl

/-- A path under which a text can be read leads to a file. -/
lemma find_of_readText (h : fs.readText path = .ok text) :
    ∃ place bytes time, fs.find path = .ok (place, .file bytes time) := by
  unfold readText readBytes at h
  split at h
  · rename_i place bytes time hfind
    exact ⟨place, bytes, time, hfind⟩
  all_goals cases h

/-- At a place that is reached without links stands a file, if a text can be read there. -/
lemma Straight.file_of_readText (hplace : fs.Straight place)
    (h : fs.readText (pathOf place) = .ok text) : ∃ bytes time, fs.entry? place = some (.file bytes time) := by
  obtain ⟨target, bytes, time, hfind⟩ := find_of_readText h
  obtain ⟨hfollow, hentry⟩ := of_find hfind
  exact ⟨bytes, time, hplace.eq_of_follow_pathOf hfollow ▸ hentry⟩

end CodeAudit.Files
