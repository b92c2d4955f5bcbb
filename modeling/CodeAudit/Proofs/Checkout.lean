import CodeAudit.Checkout
import CodeAudit.Proofs.Files.Change
import CodeAudit.Proofs.Session

/-!
# What a checkout leaves alone

A copy of a repository goes to a directory of its own below a working directory, and in clean mode whatever
stands at that directory is removed first. The name of the directory comes from the address of the repository.
This module says exactly when a call keeps to its directory: always, except that in clean mode an address whose
name is a single or a double point makes it remove the working directory itself or the directory above.

## Main definitions

* `Checkout.goal` — where a call is going to put the copy.
* `Checkout.Escapes` — a call in clean mode whose name is a point or a double point.

## Main results

* `Checkout.folderName_safe` — the name of a directory is not empty and has safe characters only.
* `Checkout.confined_iff_not_escapes` — a call is confined exactly if it does not escape.
-/

namespace CodeAudit

open FileTask List

/-! ## Names -/

namespace Checkout

lemma isSafe_of_mem_decimalInt {n : ℤ} {c : Char} (h : c ∈ (Number.decimalInt n).toList) : isSafe c = true := by
  have hdigits : ∀ c ∈ Number.decimal n.natAbs, isSafe c = true := by
    intro c hc
    have hdigit : c.isDigit = true := Nat.isDigit_of_mem_toDigits (by decide) (by decide) hc
    simp [isSafe, Char.isAlphanum, hdigit]
  unfold Number.decimalInt at h
  split at h
  · simp only [String.toList_ofList, mem_cons] at h
    rcases h with rfl | h
    · rfl
    · exact hdigits c h
  · exact hdigits c (by simpa using h)

lemma mem_of_mem_stripped {mark c : Char} {cs : List Char} (h : c ∈ stripped mark cs) : c ∈ cs := by
  simp only [stripped, Text.dropEndWhile, mem_reverse] at h
  have h' := (dropWhile_sublist _).subset h
  rw [mem_reverse] at h'
  exact (dropWhile_sublist _).subset h'

/-- **The name of a directory is not empty and has safe characters only.** -/
theorem folderName_safe (url : String) (clock : ℤ) :
    folderName url clock ≠ "" ∧ ∀ c ∈ (folderName url clock).toList, isSafe c = true := by
  unfold folderName
  extract_lets last bare safe
  split_ifs with hempty
  · refine ⟨fun h => by simpa using congrArg String.toList h, fun c hc => ?_⟩
    rw [String.toList_append, mem_append] at hc
    rcases hc with hc | hc
    · exact all_eq_true.mp (show "repo_".toList.all isSafe = true by decide) c hc
    · exact isSafe_of_mem_decimalInt hc
  · refine ⟨by simpa using hempty, fun c hc => ?_⟩
    rw [String.toList_ofList] at hc
    obtain ⟨c, -, rfl⟩ := mem_map.mp (mem_of_mem_stripped hc)
    split_ifs with hsafe
    · exact hsafe
    · rfl

lemma slash_not_mem_of_safe {cs : List Char} (h : ∀ c ∈ cs, isSafe c = true) : '/' ∉ cs :=
  fun hmem => absurd (h _ hmem) (by decide)

/-- The name of a directory is proper unless it is a point or a double point. -/
lemma isName_folderName {url : String} {clock : ℤ} (hpoint : folderName url clock ≠ ".")
    (hpoints : folderName url clock ≠ "..") : Path.IsName (folderName url clock) :=
  ⟨(folderName_safe url clock).1, hpoint, hpoints, slash_not_mem_of_safe (folderName_safe url clock).2⟩

/-- A name with the time behind it is always proper. -/
lemma isName_stamped (url : String) (clock : ℤ) :
    Path.IsName (folderName url clock ++ "-" ++ Number.decimalInt clock) := by
  have hdash : '-' ∈ (folderName url clock ++ "-" ++ Number.decimalInt clock).toList := by simp
  have hne : ∀ s : String, '-' ∉ s.toList → folderName url clock ++ "-" ++ Number.decimalInt clock ≠ s := by
    rintro s hs rfl
    exact hs hdash
  refine ⟨hne _ (by decide), hne _ (by decide), hne _ (by decide), slash_not_mem_of_safe fun c hc => ?_⟩
  simp only [String.toList_append, mem_append] at hc
  rcases hc with (hc | hc) | hc
  · exact (folderName_safe url clock).2 c hc
  · exact all_eq_true.mp (show "-".toList.all isSafe = true by decide) c hc
  · exact isSafe_of_mem_decimalInt hc

/-! ## Everything that a call can do -/

/-- Where a call is going to put the copy. It has no such place if the working directory cannot be made or the
name cannot be asked for. -/
def goal (dest : Path) (name : String) (mode : Mode) (clock : ℤ) (fs : Files) : Except Fault Path := do
  (fs.ensureFolders dest).1
  let taken ← (fs.ensureFolders dest).2.exists? (dest.child name)
  return target dest name mode clock taken

/-- In clean mode a copy goes to its name, whether something stands there or not. -/
@[simp] lemma target_clean (dest : Path) (name : String) (clock : ℤ) (taken : Bool) :
    target dest name .clean clock taken = dest.child name := by
  simp [target]

/-- What is removed with a directory, and the outcome of making room by it. -/
def cleared (fs : Files) (t : Path) : Except Fault Path × Files :=
  (((fs.removeTree t).1.mapError (.file · t.toString)).map fun _ => t, (fs.removeTree t).2)

/-- Making room stops without a place for the copy, or what stands there is removed in clean mode and otherwise
left alone. -/
lemma makeRoom_cases (dest : Path) (name : String) (mode : Mode) (clock : ℤ) (fs : Files) :
    (∃ f, goal dest name mode clock fs = .error f ∧
      (makeRoom dest name mode clock).runOn fs = (.error f, (fs.ensureFolders dest).2)) ∨
    ∃ taken, (fs.ensureFolders dest).1 = .ok () ∧
      (fs.ensureFolders dest).2.exists? (dest.child name) = .ok taken ∧
      goal dest name mode clock fs = .ok (target dest name mode clock taken) ∧
      (makeRoom dest name mode clock).runOn fs =
        if taken && mode = .clean then cleared (fs.ensureFolders dest).2 (dest.child name)
        else (.ok (target dest name mode clock taken), (fs.ensureFolders dest).2) := by
  have hmake := runOn_makeFolders dest fs
  rw [goal]
  generalize fs.ensureFolders dest = result at hmake ⊢
  obtain ⟨made, after⟩ := result
  cases made with
  | error f => exact .inl ⟨f, rfl, runOn_bind_error hmake _⟩
  | ok =>
    rw [makeRoom, runOn_bind_ok hmake]
    have hlook := runOn_reading (·.exists? (dest.child name)) after
    cases htaken : after.exists? (dest.child name) with
    | error f =>
      rw [htaken] at hlook
      exact .inl ⟨f, rfl, runOn_bind_error hlook _⟩
    | ok taken =>
      rw [htaken] at hlook
      refine .inr ⟨taken, rfl, rfl, rfl, ?_⟩
      rw [runOn_bind_ok hlook]
      split_ifs with hremove
      · obtain ⟨rfl, rfl⟩ : taken = true ∧ mode = .clean := by simpa using hremove
        rw [target_clean, cleared]
        cases hr : (after.removeTree (dest.child name)).1 with
        | error e =>
          refine runOn_bind_error ?_ _
          rw [removeTree, runOn_changingOn, hr]
          rfl
        | ok =>
          refine runOn_bind_ok (x := ()) ?_ _
          rw [removeTree, runOn_changingOn, hr]
          rfl
      · rfl

/-- A call makes room for the copy and then starts the program that copies, unless making room fails. -/
lemma fresh_cases (url : String) (dest : Path) (branch : Option String) (mode : Mode) (around : Surroundings)
    (s : Session) :
    (∃ f fs, (makeRoom dest (folderName url around.clock) mode around.clock).runOn s.files = (.error f, fs) ∧
      (fresh url dest branch mode).runOn around s = (.error (.fault f), { s with files := fs })) ∨
    ∃ t fs, (makeRoom dest (folderName url around.clock) mode around.clock).runOn s.files = (.ok t, fs) ∧
      (fresh url dest branch mode).runOn around s =
        (((((around.run (cloneWords url branch t)).runOn fs).1.mapError .fault).map fun _ => t),
          { s with files := ((around.run (cloneWords url branch t)).runOn fs).2,
                   launches := s.launches ++ [.program (cloneWords url branch t)] }) := by
  have hroom := Action.runOn_files (makeRoom dest (folderName url around.clock) mode around.clock) around s
  rw [fresh, Action.runOn_bind_ok (Action.runOn_read _ _)]
  generalize (makeRoom dest (folderName url around.clock) mode around.clock).runOn s.files = result at hroom ⊢
  obtain ⟨r, fs⟩ := result
  cases r with
  | error f => exact .inl ⟨f, fs, rfl, Action.runOn_bind_error hroom _⟩
  | ok t =>
    refine .inr ⟨t, fs, rfl, ?_⟩
    rw [Action.runOn_bind_ok hroom]
    have hcopy := Action.runOn_run (cloneWords url branch t) around { s with files := fs }
    cases hr : ((around.run (cloneWords url branch t)).runOn fs).1 with
    | error f =>
      rw [hr] at hcopy
      exact Action.runOn_bind_error hcopy _
    | ok =>
      rw [hr] at hcopy
      exact Action.runOn_bind_ok hcopy _

/-! ## Confinement -/

/-- A call keeps to an entry of the working directory `dest`. -/
structure Confined (url : String) (dest : Path) (branch : Option String) (mode : Mode) (around : Surroundings)
    (s : Session) : Prop where
  /-- The copy goes to an entry of the working directory with a proper name. -/
  child : ∀ t, goal dest (folderName url around.clock) mode around.clock s.files = .ok t →
    ∃ name, Path.IsName name ∧ t = Files.extend dest name
  /-- If a program is started, it copies to that entry. -/
  starts : ((fresh url dest branch mode).runOn around s).2.launches = s.launches ∨
    ∃ t, goal dest (folderName url around.clock) mode around.clock s.files = .ok t ∧
      ((fresh url dest branch mode).runOn around s).2.launches =
        s.launches ++ [.program (cloneWords url branch t)]
  /-- What stood outside that entry still stands there, whether the call succeeds or not. -/
  kept : ∀ place e, s.files.entry? place = some e →
    (∀ t base, goal dest (folderName url around.clock) mode around.clock s.files = .ok t →
      (s.files.ensureFolders dest).2.follow dest = .ok base → ¬ base ++ [t.name] <+: place) →
    ((fresh url dest branch mode).runOn around s).2.files.entry? place = some e

/-- A call in clean mode whose name is a point or a double point, and whose working directory can be made. -/
def Escapes (url : String) (dest : Path) (mode : Mode) (clock : ℤ) (fs : Files) : Prop :=
  mode = .clean ∧ (folderName url clock = "." ∨ folderName url clock = "..") ∧
    (fs.ensureFolders dest).1 = .ok ()

section Confinement

variable {url : String} {dest : Path} {branch : Option String} {mode : Mode} {clock : ℤ} {fs : Files}

variable {name : String} {t : Path} {place : Place}

/-- A point and a double point below a directory that was made lead to a directory. -/
lemma follow_child_of_points (hfs : fs.Rooted) (hmade : (fs.ensureFolders dest).1 = .ok ())
    (hname : name = "." ∨ name = "..") :
    ∃ base, (fs.ensureFolders dest).2.follow (dest.child name) = .ok base ∧
      Files.entry? (fs.ensureFolders dest).2 base = some .folder := by
  have hmade' := Files.made_ensureFolders fs dest
  obtain ⟨place, hplace, hfolder⟩ := hmade'.leads hfs hmade
  rcases hname with rfl | rfl
  · exact ⟨place, by rwa [Path.child_point], hfolder⟩
  · rw [Path.child_points]
    exact ⟨place.dropLast, Files.followFrom_concat_points hplace hfolder,
      (hmade'.rooted hfs).parent _ _ hfolder⟩

lemma exists_child_of_points (hfs : fs.Rooted) (hmade : (fs.ensureFolders dest).1 = .ok ())
    (hname : name = "." ∨ name = "..") :
    (fs.ensureFolders dest).2.exists? (dest.child name) = .ok true := by
  obtain ⟨base, hbase, hfolder⟩ := follow_child_of_points hfs hmade hname
  exact Files.exists?_of_follow hbase hfolder

/-- A call that does not escape puts the copy at an entry with a proper name. -/
lemma exists_isName_of_not_escapes (hfs : fs.Rooted) (h : ¬ Escapes url dest mode clock fs)
    (ht : goal dest (folderName url clock) mode clock fs = .ok t) :
    ∃ name, Path.IsName name ∧ t = Files.extend dest name := by
  rcases makeRoom_cases dest (folderName url clock) mode clock fs with
    ⟨f, hgoal, -⟩ | ⟨taken, hmade, htaken, hgoal, -⟩
  · rw [hgoal] at ht
    cases ht
  obtain rfl : target dest (folderName url clock) mode clock taken = t := Except.ok.inj (hgoal.symm.trans ht)
  unfold target
  split_ifs with hstamp
  · exact ⟨_, isName_stamped url clock, Path.child_of_isName dest (isName_stamped url clock)⟩
  · have hpoints : ¬ (folderName url clock = "." ∨ folderName url clock = "..") := by
      intro hname
      -- the name is taken, so the mode is clean and the call escapes
      obtain rfl : true = taken := Except.ok.inj ((exists_child_of_points hfs hmade hname).symm.trans htaken)
      cases mode with
      | clean => exact h ⟨rfl, hname, hmade⟩
      | unique => exact hstamp rfl
    rw [not_or] at hpoints
    have hproper := isName_folderName hpoints.1 hpoints.2
    exact ⟨_, hproper, Path.child_of_isName dest hproper⟩

/-- A call that does not escape leaves alone, while it makes room, what stands outside of the entry for the
copy. -/
lemma entry?_makeRoom_of_not_escapes (hfs : fs.Rooted) (h : ¬ Escapes url dest mode clock fs)
    {e : Entry} (he : fs.entry? place = some e)
    (houtside : ∀ t base, goal dest (folderName url clock) mode clock fs = .ok t →
      (fs.ensureFolders dest).2.follow dest = .ok base → ¬ base ++ [t.name] <+: place) :
    Files.entry? ((makeRoom dest (folderName url clock) mode clock).runOn fs).2 place = some e := by
  have hmade := (Files.made_ensureFolders fs dest).grows.kept _ _ he
  rcases makeRoom_cases dest (folderName url clock) mode clock fs with
    ⟨f, -, hrun⟩ | ⟨taken, -, -, hgoal, hrun⟩
  · rw [hrun, hmade]
  rw [hrun]
  split_ifs with hremove
  · obtain ⟨rfl, rfl⟩ : taken = true ∧ mode = .clean := by simpa using hremove
    obtain ⟨name, hname, hchild⟩ := exists_isName_of_not_escapes hfs h hgoal
    rw [target_clean] at hgoal hchild
    rw [cleared, hchild, Files.entry?_removeTree_of_not_prefix _ hname.ne_points, hmade]
    intro base hbase
    have hlast : (Files.extend dest name).name = name := by simp [Files.extend, Path.name]
    have := houtside _ base hgoal hbase
    rwa [hchild, hlast] at this
  · exact hmade

/-- Where room was made, the copy goes. -/
lemma goal_of_makeRoom_ok {after : Files}
    (h : (makeRoom dest name mode clock).runOn fs = (.ok t, after)) : goal dest name mode clock fs = .ok t := by
  rcases makeRoom_cases dest name mode clock fs with ⟨f, -, hrun⟩ | ⟨taken, -, -, hgoal, hrun⟩
  · rw [hrun] at h
    cases h
  rw [hrun] at h
  split_ifs at h with hremove
  · obtain ⟨rfl, rfl⟩ : taken = true ∧ mode = .clean := by simpa using hremove
    rw [hgoal, target_clean]
    unfold cleared at h
    cases hr : ((fs.ensureFolders dest).2.removeTree (dest.child name)).1 with
    | error e => simp [hr, Except.mapError, Except.map] at h
    | ok => simpa [hr, Except.mapError, Except.map] using congrArg Prod.fst h
  · rw [hgoal]
    exact congrArg Prod.fst h

/-- A call that escapes removes everything below the directory to which the point or the double point leads,
unless that is a link. -/
lemma entry?_makeRoom_of_escapes (hfs : fs.Rooted) (h : Escapes url dest mode clock fs)
    (hlink : (fs.ensureFolders dest).2.isLink (dest.child (folderName url clock)) = false) {base : Place}
    (hbase : (fs.ensureFolders dest).2.follow (dest.child (folderName url clock)) = .ok base)
    (hbelow : base <+: place) (hne : place ≠ base) :
    Files.entry? ((makeRoom dest (folderName url clock) mode clock).runOn fs).2 place = none := by
  obtain ⟨rfl, hname, hmade⟩ := h
  obtain ⟨base', hbase', hfolder⟩ := follow_child_of_points hfs hmade hname
  obtain rfl : base' = base := Except.ok.inj (hbase'.symm.trans hbase)
  have hexists := exists_child_of_points hfs hmade hname
  rcases makeRoom_cases dest (folderName url clock) .clean clock fs with
    ⟨f, hgoal, -⟩ | ⟨taken, -, htaken, -, hrun⟩
  · rw [goal, hmade, hexists] at hgoal
    cases hgoal
  · obtain rfl : true = taken := Except.ok.inj (hexists.symm.trans htaken)
    rw [hrun]
    exact Files.entry?_removeTree_below _ hlink hbase hfolder hbelow hne

/-- A call that escapes does not put the copy at an entry with a proper name. -/
lemma not_isName_of_escapes (hfs : fs.Rooted) (h : Escapes url dest mode clock fs) :
    ∃ t, goal dest (folderName url clock) mode clock fs = .ok t ∧
      ¬ ∃ name, Path.IsName name ∧ t = Files.extend dest name := by
  obtain ⟨rfl, hname, hmade⟩ := h
  refine ⟨dest.child (folderName url clock), ?_, ?_⟩
  · rw [goal, hmade, exists_child_of_points hfs hmade hname, ← target_clean]
    rfl
  · rintro ⟨name, hproper, heq⟩
    rcases hname with hname | hname
    · rw [hname, Path.child_point] at heq
      have := congrArg (·.names.length) heq
      simp [Files.extend] at this
    · rw [hname, Path.child_points] at heq
      exact hproper.ne_points (by simpa [Files.extend] using heq.symm)

end Confinement

/-- **A call is confined exactly if it does not escape**: the copy goes to an entry of the working directory
with a proper name, and everything else stays as it was, unless the mode is clean and the name is a point or a
double point. Then everything that stands below the working directory or below the one above it is removed
before the program that copies is started, unless that directory is reached through a link. The program is taken
to change nothing that is there.

**Proof sketch.** A name other than the two is proper, and so is every name with the time behind it; making the
working directory adds directories only, and a removal through a proper name takes away nothing outside of it.
A point leads to the working directory, which is not an entry of itself, and a double point is not proper. -/
theorem confined_iff_not_escapes (url : String) (dest : Path) (branch : Option String) (mode : Mode)
    (around : Surroundings) (s : Session) (hfiles : s.files.Rooted)
    (hrun : ∀ t, (around.run (cloneWords url branch t)).Keeps) :
    (Confined url dest branch mode around s ↔ ¬ Escapes url dest mode around.clock s.files) ∧
      (Escapes url dest mode around.clock s.files →
        ∀ base place, (s.files.ensureFolders dest).2.isLink (dest.child (folderName url around.clock)) = false →
          (s.files.ensureFolders dest).2.follow (dest.child (folderName url around.clock)) = .ok base →
          base <+: place → place ≠ base →
          Files.entry? ((makeRoom dest (folderName url around.clock) mode around.clock).runOn s.files).2 place =
            none) := by
  refine ⟨⟨fun hconfined hescapes => ?_, fun h => ⟨?_, ?_, ?_⟩⟩, ?_⟩
  · obtain ⟨t, ht, hchild⟩ := not_isName_of_escapes hfiles hescapes
    exact hchild (hconfined.child t ht)
  · exact fun t ht => exists_isName_of_not_escapes hfiles h ht
  · rcases fresh_cases url dest branch mode around s with ⟨f, fs, hfs, hfresh⟩ | ⟨t, fs, hfs, hfresh⟩
    · exact .inl (by rw [hfresh])
    · exact .inr ⟨t, goal_of_makeRoom_ok hfs, by rw [hfresh]⟩
  · intro place e he houtside
    have hroom := entry?_makeRoom_of_not_escapes hfiles h he houtside
    rcases fresh_cases url dest branch mode around s with ⟨f, fs, hfs, hfresh⟩ | ⟨t, fs, hfs, hfresh⟩
    · rw [hfs] at hroom
      rw [hfresh]
      exact hroom
    · rw [hfs] at hroom
      rw [hfresh]
      exact hrun t fs place e hroom
  · exact fun h base place hlink hbase hbelow hne =>
      entry?_makeRoom_of_escapes hfiles h hlink hbase hbelow hne

/-- Making directories changes nothing that is there. -/
lemma keeps_makeFolders (p : Path) : (changing (·.makeFolders p)).Keeps := by
  intro fs place e he
  have hmade := (Files.made_ensureFolders fs p).grows.kept place e he
  cases hfolders : (fs.ensureFolders p).1 with
  | error f => rwa [runOn_changing_error (by rw [Files.makeFolders, hfolders]; rfl)]
  | ok => rwa [runOn_changing_ok (by rw [Files.makeFolders, hfolders]; rfl)]

/-- A working directory with one file. -/
def oneFile : Files :=
  ⟨[(["work"], .folder), (["work", "area"], .folder), (["work", "area", "keep.txt"], .file [49] 0)], ["work"]⟩

/-- A program that makes the directory of its last word. -/
def makesTarget : Surroundings :=
  { clock := 7, run := fun words => changing (·.makeFolders (.ofString (words.getLastD ""))) }

/-- The file stays with a proper name, and is lost with a point and with a double point. -/
theorem not_confined_points :
    Confined "https://h/r.git" (.ofString "area") none .clean makesTarget { files := oneFile } ∧
      ¬ Confined "https://h/." (.ofString "area") none .clean makesTarget { files := oneFile } ∧
      Files.entry? ((makeRoom (.ofString "area") (folderName "https://h/." 7) .clean 7).runOn oneFile).2
        ["work", "area", "keep.txt"] = none ∧
      ¬ Confined "https://h/...git" (.ofString "area") none .clean makesTarget { files := oneFile } := by
  have hfiles : oneFile.Rooted := Files.Rooted.of_entries (by decide) (by decide)
  have hmade : (oneFile.ensureFolders (.ofString "area")).1 = .ok () := by cbv
  have hlink : (oneFile.ensureFolders (.ofString "area")).2.isLink (.ofString "area") = false := by cbv
  have hleads : (oneFile.ensureFolders (.ofString "area")).2.follow (.ofString "area") = .ok ["work", "area"] := by
    cbv
  have hproper : folderName "https://h/r.git" 7 = "r" := by decide +kernel
  have hpoint : folderName "https://h/." 7 = "." := by decide +kernel
  have hpoints : folderName "https://h/...git" 7 = ".." := by decide +kernel
  have hescapes : Escapes "https://h/." (.ofString "area") .clean makesTarget.clock oneFile :=
    ⟨rfl, .inl hpoint, hmade⟩
  refine ⟨?_, ?_, ?_, ?_⟩
  · rw [(confined_iff_not_escapes _ _ _ _ _ _ hfiles fun t => keeps_makeFolders _).1]
    rintro ⟨-, h, -⟩
    rw [show makesTarget.clock = 7 from rfl, hproper] at h
    revert h
    decide
  · rw [(confined_iff_not_escapes _ _ _ _ _ _ hfiles fun t => keeps_makeFolders _).1, not_not]
    exact hescapes
  · refine (confined_iff_not_escapes _ _ none _ makesTarget { files := oneFile } hfiles
      fun t => keeps_makeFolders _).2 hescapes ["work", "area"] _ ?_ ?_ (by decide) (by decide)
    · rw [show makesTarget.clock = 7 from rfl, hpoint, Path.child_point]
      exact hlink
    · rw [show makesTarget.clock = 7 from rfl, hpoint, Path.child_point]
      exact hleads
  · rw [(confined_iff_not_escapes _ _ _ _ _ _ hfiles fun t => keeps_makeFolders _).1, not_not]
    exact ⟨rfl, .inr hpoints, hmade⟩

end Checkout

end CodeAudit
