import CodeAudit.Proofs.Checkout

/-!
# Copies that leave everything in place

In unique mode nothing is removed to make room for a copy: if something stands at its name, the copy gets a name by the
time. The program that copies is taken to be one that makes its target and refuses one that is there.

## Main definitions

* `Files.Extends` — a tree in which everything of another one is in place.
* `Checkout.Row` — copies one after another into one working directory.

## Main results

* `Files.Extends.exists?_eq` — a path that leads to something still does.
* `Checkout.unique_leaves_in_place` — copies in unique mode leave everything in place and return new paths.
-/

namespace CodeAudit

open Files FileTask

namespace Files

/-- **Everything of a tree is in place in another one**, with its content. -/
structure Extends (before after : Files) : Prop where
  here : after.here = before.here
  kept : ∀ place e, before.entry? place = some e → after.entry? place = some e

namespace Extends

variable {before after : Files}

lemma trans {between : Files} (h : before.Extends between) (h' : between.Extends after) : before.Extends after :=
  ⟨h'.here.trans h.here, fun place e he => h'.kept place e (h.kept place e he)⟩

/-- **A path that leads to something still does.** -/
lemma exists?_eq (h : before.Extends after) {p : Path} (hp : before.exists? p = .ok true) :
    after.exists? p = .ok true := by
  unfold exists? at hp
  split at hp
  · rename_i found hfind
    obtain ⟨hfollow, he⟩ := of_find hfind
    refine exists?_of_follow ?_ (h.kept _ _ he)
    have hstart : after.start p = before.start p := by simp [start, h.here]
    rw [follow, hstart]
    refine followFrom_of_kept (fun q => h.kept q _) (fun q t => h.kept q _) (fun q hend hlink => ?_) hfollow
    -- something stands at every place on the way, so no link has come there
    cases hq : before.entry? q with
    | none =>
      rw [hend hq, he] at hq
      cases hq
    | some e =>
      rw [h.kept _ _ hq, ← hq]
      exact hlink
  all_goals cases hp

end Extends

end Files

namespace Checkout

variable {url : String} {dest : Path} {branch : Option String} {around : Surroundings} {paths : List Path}

/-- **What is expected of a program that copies to a path**: everything stays in place, something that stands at the path
makes it fail without any change, and if it succeeds something stands there. -/
structure Copies (task : FileTask Unit) (t : Path) : Prop where
  extends_ : ∀ fs : Files, fs.Extends (task.runOn fs).2
  refuses : ∀ fs : Files, fs.exists? t = .ok true → ∃ f, task.runOn fs = (.error f, fs)
  leads : ∀ fs after : Files, task.runOn fs = (.ok (), after) → after.exists? t = .ok true

/-- The program that a call in unique mode starts copies to where the call puts the copy. -/
def StartsCopy (url : String) (dest : Path) (branch : Option String) (around : Surroundings) (s : Session) : Prop :=
  ∀ t, goal dest (folderName url around.clock) .unique around.clock s.files = .ok t →
    Copies (around.run (cloneWords url branch t)) t

/-- In unique mode making room does no more than making the working directory. -/
lemma files_makeRoom_unique (dest : Path) (name : String) (clock : ℤ) (fs : Files) :
    ((makeRoom dest name .unique clock).runOn fs).2 = (fs.ensureFolders dest).2 := by
  rcases makeRoom_cases dest name .unique clock fs with ⟨f, -, hrun⟩ | ⟨taken, -, -, -, hrun⟩ <;> simp [hrun]

/-- **What a call in unique mode does**: everything stays in place, whether it succeeds or not; and if it returns a path,
nothing stood there, and something does afterwards. -/
lemma StartsCopy.spec {s : Session} (h : StartsCopy url dest branch around s) :
    s.files.Extends ((fresh url dest branch .unique).runOn around s).2.files ∧
      ∀ t after, (fresh url dest branch .unique).runOn around s = (.ok t, after) →
        s.files.exists? t ≠ .ok true ∧ after.files.exists? t = .ok true := by
  have hmade : ∀ {outcome fs}, (makeRoom dest (folderName url around.clock) .unique around.clock).runOn s.files =
      (outcome, fs) → s.files.Extends fs := by
    intro outcome fs hfs
    have hgrows := (made_ensureFolders s.files dest).grows
    rw [← files_makeRoom_unique, hfs] at hgrows
    exact ⟨hgrows.here, hgrows.kept⟩
  rcases fresh_cases url dest branch .unique around s with ⟨f, fs, hfs, hfresh⟩ | ⟨t, fs, hfs, hfresh⟩
  · rw [hfresh]
    exact ⟨hmade hfs, fun t after hrun => by cases hrun⟩
  have hcopies := h t (goal_of_makeRoom_ok hfs)
  rw [hfresh]
  refine ⟨(hmade hfs).trans (hcopies.extends_ fs), fun t' after hrun => ?_⟩
  obtain ⟨hok, rfl⟩ := Prod.mk.inj hrun
  rcases hcopy : (around.run (cloneWords url branch t)).runOn fs with ⟨outcome, left⟩
  rw [hcopy] at hok
  cases outcome with
  | error f => cases hok
  | ok =>
    obtain rfl := Except.ok.inj hok
    refine ⟨fun htaken => ?_, hcopies.leads _ _ hcopy⟩
    obtain ⟨f, hfails⟩ := hcopies.refuses fs ((hmade hfs).exists?_eq htaken)
    cases hcopy.symm.trans hfails

/-- **Copies one after another** in unique mode below one working directory, with the paths that they return. Each has its
own time and surroundings. -/
inductive Row (dest : Path) : Session → List Path → Session → Prop
  | nil (s : Session) : Row dest s [] s
  | cons {url : String} {branch : Option String} {around : Surroundings} {s between after : Session} {t : Path}
      {paths : List Path} (starts : StartsCopy url dest branch around s)
      (first : (fresh url dest branch .unique).runOn around s = (.ok t, between)) (rest : Row dest between paths after) :
      Row dest s (t :: paths) after

/-- Copies one after another leave everything in place, nothing stood at the paths that they return, and these are
different: something stands at each of them as soon as it is returned. -/
lemma Row.spec {s after : Session} (h : Row dest s paths after) :
    s.files.Extends after.files ∧ (∀ p ∈ paths, s.files.exists? p ≠ .ok true) ∧ paths.Nodup := by
  induction h with
  | nil s => exact ⟨⟨rfl, fun _ _ he => he⟩, by simp, List.nodup_nil⟩
  | cons starts first rest ih =>
    obtain ⟨hextends, hnew, hnodup⟩ := ih
    obtain ⟨hfirst, hreturns⟩ := starts.spec
    rw [first] at hfirst
    obtain ⟨hfree, hthere⟩ := hreturns _ _ first
    refine ⟨hfirst.trans hextends, fun p hp => ?_, List.nodup_cons.mpr ⟨fun hmem => hnew _ hmem hthere, hnodup⟩⟩
    rcases List.mem_cons.mp hp with rfl | hp
    · exact hfree
    · exact fun hthere => hnew p hp (hfirst.exists?_eq hthere)

/-- **Copies in unique mode leave everything in place and return new paths.** Whether a call succeeds or not, everything
that was there is there with its content; if it succeeds, nothing stood at the path that it returns. So the paths that
copies one after another return are different.

**Proof sketch.** Making the working directory only adds directories, and the program that copies keeps what is there. It
refuses a path at which something stands, and a path that leads to something still does when directories were added;
so nothing stood at the path before the call. After the call something stands there, also when later calls are made. -/
theorem unique_leaves_in_place (dest : Path) :
    (∀ url branch around s, StartsCopy url dest branch around s →
      s.files.Extends ((fresh url dest branch .unique).runOn around s).2.files ∧
        ∀ t after, (fresh url dest branch .unique).runOn around s = (.ok t, after) → s.files.exists? t ≠ .ok true) ∧
    ∀ s paths after, Row dest s paths after → s.files.Extends after.files ∧ paths.Nodup := by
  refine ⟨fun url branch around s h => ⟨h.spec.1, fun t after hrun => (h.spec.2 t after hrun).1⟩, fun s paths after h => ?_⟩
  obtain ⟨hextends, -, hnodup⟩ := h.spec
  exact ⟨hextends, hnodup⟩

/-- Making a directory where nothing stands is what is expected of a program that copies. -/
lemma copies_makeFolder (p : Path) :
    Copies (changing fun fs => (fs.makeFolder p).mapError (.file · p.toString)) p where
  extends_ fs := by
    cases hmake : fs.makeFolder p with
    | error e =>
      rw [runOn_changing_error (by rw [hmake]; rfl)]
      exact ⟨rfl, fun _ _ he => he⟩
    | ok after =>
      rw [runOn_changing_ok (by rw [hmake]; rfl)]
      exact ⟨(grows_of_makeFolder hmake).here, (grows_of_makeFolder hmake).kept⟩
  refuses fs htaken := by
    cases hmake : fs.makeFolder p with
    | error e => exact ⟨_, runOn_changing_error (by rw [hmake]; rfl)⟩
    | ok after =>
      obtain ⟨parent, hparent, hfolder, hnames, hname, hlong, hnone, -⟩ := of_makeFolder_ok hmake
      have hfollow : fs.follow p = .ok (parent ++ [p.name]) := by
        rw [Files.follow, names_eq_parent_concat hnames]
        exact followFrom_concat hparent hfolder hname hlong (by simp [hnone])
      simp [exists?, Files.find, hfollow, hnone, bind, Except.bind] at htaken
  leads fs after hrun := by
    have hmake := Outcome.mapError_eq_ok.mp (runOn_changing_eq_ok.mp hrun)
    obtain ⟨place, hplace, hfolder⟩ := leads_of_makeFolder hmake
    exact exists?_of_follow hplace hfolder

/-- A program that makes the directory of its last word, where nothing stands. -/
def makesNew : Surroundings :=
  { clock := 7, run := fun words =>
      let p := Path.ofString (words.getLastD "")
      changing fun fs => (fs.makeFolder p).mapError (.file · p.toString) }

/-- A call that finds room for the copy and then copies goes before the others. -/
lemma Row.cons_of_room {t : Path} {s after : Session} {fs left : Files}
    (hroom : (makeRoom dest (folderName url around.clock) .unique around.clock).runOn s.files = (.ok t, fs))
    (hcopies : Copies (around.run (cloneWords url branch t)) t)
    (hcopy : (around.run (cloneWords url branch t)).runOn fs = (.ok (), left))
    (rest : Row dest { s with files := left, launches := s.launches ++ [.program (cloneWords url branch t)] } paths after)
    :
    Row dest s (t :: paths) after := by
  have starts : StartsCopy url dest branch around s := by
    intro t' hgoal
    obtain rfl := Except.ok.inj ((goal_of_makeRoom_ok hroom).symm.trans hgoal)
    exact hcopies
  refine .cons starts ?_ rest
  rcases fresh_cases url dest branch .unique around s with ⟨f, fs', hfs, -⟩ | ⟨t', fs', hfs, hfresh⟩
  · cases hroom.symm.trans hfs
  · obtain ⟨ht, rfl⟩ := Prod.mk.inj (hroom.symm.trans hfs)
    obtain rfl := Except.ok.inj ht
    rw [hfresh, hcopy]
    rfl

/-- A working directory with a file and with directories of some names. -/
def oneFileAnd (names : List String) : Files :=
  ⟨oneFile.entries ++ names.map fun name => (["work", "area", name], .folder), ["work"]⟩

/-- Two copies of one repository in the same second go to two paths, and the file beside them stays. -/
theorem unique_leaves_in_place_twice : ∃ s,
    Row (.ofString "area") { files := oneFile } [.ofString "area/r", .ofString "area/r-7"] s ∧
      Files.entry? s.files ["work", "area", "keep.txt"] = some (.file [49] 0) ∧
      [Path.ofString "area/r", .ofString "area/r-7"].Nodup := by
  have hname : folderName "https://h/r" makesNew.clock = "r" := by decide +kernel
  have hfirst : (makeRoom (.ofString "area") "r" .unique 7).runOn oneFile = (.ok (.ofString "area/r"), oneFile) := by cbv
  have hcopy : (makesNew.run (cloneWords "https://h/r" none (.ofString "area/r"))).runOn oneFile =
      (.ok (), oneFileAnd ["r"]) := by cbv
  have hsecond : (makeRoom (.ofString "area") "r" .unique 7).runOn (oneFileAnd ["r"]) =
      (.ok (.ofString "area/r-7"), oneFileAnd ["r"]) := by cbv
  have hcopy' : (makesNew.run (cloneWords "https://h/r" none (.ofString "area/r-7"))).runOn (oneFileAnd ["r"]) =
      (.ok (), oneFileAnd ["r", "r-7"]) := by cbv
  have hcopies : ∀ t : Path, .ofString t.toString = t → Copies (makesNew.run (cloneWords "https://h/r" none t)) t := by
    intro t ht
    have h : Copies (makesNew.run (cloneWords "https://h/r" none t)) (.ofString t.toString) := copies_makeFolder _
    rwa [ht] at h
  have hrow : Row (.ofString "area") { files := oneFile } [.ofString "area/r", .ofString "area/r-7"] _ :=
    .cons_of_room (by rw [hname]; exact hfirst) (hcopies _ (by decide +kernel)) hcopy
      (.cons_of_room (by rw [hname]; exact hsecond) (hcopies _ (by decide +kernel)) hcopy' (.nil _))
  obtain ⟨hextends, hnodup⟩ := (unique_leaves_in_place (.ofString "area")).2 _ _ _ hrow
  exact ⟨_, hrow, hextends.kept _ _ rfl, hnodup⟩

end Checkout

end CodeAudit
