import CodeAudit.Proofs.Files.Tree

/-!
# Places that are reached without links

A place that a path names is reached again by its own path, because no link stands at it or above it. Under the path of
such a place stands what stands at the place itself, whatever links there are elsewhere in the tree.

## Main definitions

* `Files.Straight` — a place that is reached without links.

## Main results

* `Files.WellFormed.straight_resolve` — a place that a path names is reached without links.
* `Files.WellFormed.follow_pathOf_of_mem` — the path of a place leads to what stands there.
-/

namespace CodeAudit.Files

open List

variable {fs : Files}

@[simp] lemma start_pathOf (place : Place) : fs.start (pathOf place) = [] := by
  simp [start, pathOf, Path.isAbsolute]

@[simp] lemma extend_pathOf (place : Place) (name : String) :
    extend (pathOf place) name = pathOf (place ++ [name]) := rfl

/-- **A place that is reached without links**: no double point is in it, and no link stands at it or above it. -/
structure Straight (fs : Files) (place : Place) : Prop where
  points : ".." ∉ place
  links : ∀ above, above <+: place → ∀ target, fs.entry? above ≠ some (.link target)

namespace Straight

variable {place target : Place} {links : ℕ} {names : List String}

lemma nil (fs : Files) : fs.Straight [] where
  points := by simp
  links above habove target := by simp [prefix_nil.mp habove]

lemma of_prefix {above : Place} (h : fs.Straight place) (habove : above <+: place) : fs.Straight above where
  points hmem := h.points (habove.subset hmem)
  links above' habove' := h.links above' (habove'.trans habove)

lemma dropLast (h : fs.Straight place) : fs.Straight place.dropLast :=
  h.of_prefix ( dropLast_prefix _)

lemma concat (h : fs.Straight place) {name : String} (hname : name ≠ "..")
    (hlink : ∀ target, fs.entry? (place ++ [name]) ≠ some (.link target)) : fs.Straight (place ++ [name]) where
  points := by simp [h.points, Ne.symm hname]
  links above habove := by
    rcases prefix_concat_iff.mp habove with rfl | habove
    · exact hlink
    · exact h.links above habove

/-- **A place that names lead to is reached without links**, if the place where they start is. -/
lemma of_resolveFrom (hplace : fs.Straight place)
    (h : fs.resolveFrom links place names = .ok target) : fs.Straight target := by
  fun_induction resolveFrom fs links place names with
  | case1 => exact Except.ok.inj h ▸ hplace
  | case2 _ _ _ _ _ ih => exact ih hplace.dropLast h
  | case3 => cases h
  | case4 _ _ _ _ target _ _ _ ih =>
    refine ih ?_ h
    split
    · exact nil fs
    · exact hplace
  | case5 _ _ _ _ hname hlink ih => exact ih (hplace.concat (by simpa using hname) hlink) h

/-- Names on a way without links lead straight down. -/
lemma eq_of_followFrom (h : fs.Straight (place ++ names))
    (htarget : fs.followFrom links place names = .ok target) : target = place ++ names := by
  induction names generalizing place with
  | nil => simpa using htarget.symm
  | cons name names ih =>
    have happend : place ++ name :: names = (place ++ [name]) ++ names := by simp
    have hname : name ≠ ".." := by
      rintro rfl
      exact h.points (by simp)
    obtain ⟨hplace, hlong⟩ := of_followFrom_cons_ok htarget
    rw [followFrom_cons_down hplace hname (hlong hname)
      (h.links _ (happend ▸ prefix_append _ _))] at htarget
    rw [happend] at h ⊢
    exact ih h htarget

/-- The path of a place that is reached without links leads nowhere else. -/
lemma eq_of_follow_pathOf (h : fs.Straight place)
    (htarget : fs.follow (pathOf place) = .ok target) : target = place := by
  rw [follow, start_pathOf] at htarget
  have hway : fs.Straight ([] ++ place) := h
  exact hway.eq_of_followFrom htarget

/-- The path of a place that is reached without links names that place. -/
lemma resolve_pathOf (h : fs.Straight place) : fs.resolve (pathOf place) = .ok place := by
  have hdown : ∀ (links : ℕ) (names : List String) (start : Place), fs.Straight (start ++ names) →
      fs.resolveFrom links start names = .ok (start ++ names) := by
    intro links names
    induction names with
    | nil =>
      intro start _
      rw [resolveFrom, append_nil]
    | cons name names ih =>
      intro start hstart
      have happend : start ++ name :: names = (start ++ [name]) ++ names := by simp
      have hname : ¬ (name == "..") = true := by
        intro heq
        obtain rfl : name = ".." := by simpa using heq
        exact hstart.points (by simp)
      rw [resolveFrom, if_neg hname]
      split
      · rename_i target hlink
        exact absurd hlink (hstart.links _ (happend ▸ prefix_append _ _) target)
      · rw [happend]
        exact ih _ (happend ▸ hstart)
  rw [resolve, start_pathOf]
  exact hdown _ place [] h

end Straight

namespace WellFormed

variable {place : Place} {e : Entry}

/-- The names on the way to an entry are no double points. -/
lemma points_not_mem (hfs : fs.WellFormed) (he : fs.entry? place = some e) : ".." ∉ place :=
  fun hmem => (hfs.isName_of_entry?_eq_some he hmem).1.ne_points rfl

/-- What stands below directories is reached without links, unless it is one. -/
lemma straight_of_mem (hfs : fs.WellFormed) (he : fs.entry? place = some e)
    (hlink : ∀ target, e ≠ .link target) : fs.Straight place where
  points := hfs.points_not_mem he
  links above habove target := by
    obtain ⟨rest, rfl⟩ := habove
    by_cases hrest : rest = []
    · rw [hrest, append_nil] at he
      rw [he]
      simpa using hlink target
    · rw [hfs.toRooted.entry?_of_append hrest he]
      simp

/-- **A place that a path names is reached without links.** -/
lemma straight_resolve (hfs : fs.WellFormed) {path : Path} (h : fs.resolve path = .ok place) : fs.Straight place := by
  refine Straight.of_resolveFrom ?_ h
  unfold start
  split
  · exact Straight.nil fs
  · exact hfs.straight_of_mem hfs.here (by simp)

/-- The names below a directory lead straight down to what stands there, unless it is a link. -/
lemma followFrom_of_mem (hfs : fs.WellFormed) (links : ℕ) (base : Place) {names : List String}
    (he : fs.entry? (base ++ names) = some e) (hlink : ∀ target, e ≠ .link target) :
    fs.followFrom links base names = .ok (base ++ names) := by
  induction names using reverseRecOn generalizing e with
  | nil => rw [followFrom_nil, append_nil]
  | append_singleton names name ih =>
    rw [← append_assoc] at he ⊢
    have hfolder : fs.entry? (base ++ names) = some .folder := by simpa using hfs.parent _ _ he
    obtain ⟨hname, hlong⟩ := hfs.isName_of_entry?_eq_some he (mem_append_right _ mem_cons_self)
    refine followFrom_concat (ih hfolder (by simp)) hfolder hname.ne_points hlong fun target => ?_
    rw [he]
    simpa using hlink target

/-- **The path of a place leads to what stands there**, unless it is a link. -/
lemma follow_pathOf_of_mem (hfs : fs.WellFormed) (he : fs.entry? place = some e)
    (hlink : ∀ target, e ≠ .link target) : fs.follow (pathOf place) = .ok place := by
  rw [follow, start_pathOf]
  exact hfs.followFrom_of_mem linkLimit [] he hlink

lemma find_pathOf_of_mem (hfs : fs.WellFormed) (he : fs.entry? place = some e)
    (hlink : ∀ target, e ≠ .link target) : fs.find (pathOf place) = .ok (place, e) :=
  find_of_follow (hfs.follow_pathOf_of_mem he hlink) he

/-- The path of a place that is reached without links counts as a directory if one stands there. -/
lemma isFolder_straight_iff (hfs : fs.WellFormed) (hplace : fs.Straight place) :
    fs.isFolder (pathOf place) = true ↔ fs.entry? place = some .folder := by
  constructor
  · intro hfolder
    obtain ⟨target, htarget, hentry⟩ := follow_of_isFolder hfolder
    rwa [hplace.eq_of_follow_pathOf htarget] at hentry
  · intro hentry
    rw [isFolder, hfs.find_pathOf_of_mem hentry (by simp)]

/-- A path into a directory ends in a link if one stands there. -/
lemma isLink_pathOf_iff (hfs : fs.WellFormed) (hplace : fs.entry? place = some .folder) (name : String) :
    fs.isLink (pathOf (place ++ [name])) = true ↔ ∃ target, fs.entry? (place ++ [name]) = some (.link target) := by
  have hparent : fs.follow (pathOf (place ++ [name])).parent = .ok place := by
    simpa [Path.parent, pathOf] using hfs.follow_pathOf_of_mem hplace (by simp)
  have hname : (pathOf (place ++ [name])).name = name := by simp [Path.name, pathOf]
  simp only [isLink, hparent, hname]
  cases hentry : fs.entry? (place ++ [name]) with
  | none => simp
  | some e => cases e <;> simp

end WellFormed

end CodeAudit.Files
