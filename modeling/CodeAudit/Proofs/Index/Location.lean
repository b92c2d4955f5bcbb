import CodeAudit.Index.Repository
import CodeAudit.Proofs.Index.Shelf
import CodeAudit.Proofs.Source.Rescan

/-!
# Where indexed files are read

A repository is indexed in two steps: a scan lists its files by their paths from the top of the repository, and then each
listed path is opened. A path from the top is opened from the working directory, though, so what is stored for a file
is what the working directory has under that path, and a file is reported as failed if there is nothing.

## Main definitions

* `Files.movedTo` — a tree of files with another working directory.
* `Indexing.Mirrored` — a file whose text is also found from the working directory.

## Main results

* `Scan.exists_text_of_mem_scan` — a listed file can be read below the top, and from the top.
* `Indexing.indexing_reads_from_working_directory` — when an index does not depend on the working directory.
-/

namespace CodeAudit

open Files List

/-! ## Working directories -/

namespace Files

/-- The same tree with another working directory. -/
def movedTo (fs : Files) (place : Place) : Files :=
  { fs with here := place }

variable {fs : Files}

lemma followFrom_movedTo (fs : Files) (top : Place) (links : ℕ) (place : Place) (names : List String) :
    (fs.movedTo top).followFrom links place names = fs.followFrom links place names :=
  @followFrom_congr fs (fs.movedTo top) (fun _ => .inl rfl) links place names

/-- A relative path leads to what stands below the working directory. -/
lemma find_movedTo (hfs : fs.WellFormed) {top : Place} {names : List String} {e : Entry}
    (he : fs.entry? (top ++ names) = some e) (hlink : ∀ target, e ≠ .link target) :
    (fs.movedTo top).find ⟨"", names⟩ = .ok (top ++ names, e) := by
  refine find_of_follow ?_ he
  change (fs.movedTo top).followFrom linkLimit top names = _
  rw [followFrom_movedTo, hfs.followFrom_of_mem linkLimit top he hlink]

/-- The path of a place does not depend on the working directory. -/
lemma find_pathOf_movedTo (hfs : fs.WellFormed) (top : Place) {place : Place} {e : Entry}
    (he : fs.entry? place = some e) (hlink : ∀ target, e ≠ .link target) :
    (fs.movedTo top).find (pathOf place) = .ok (place, e) := by
  refine find_of_follow ?_ he
  change (fs.movedTo top).followFrom linkLimit [] place = _
  rw [followFrom_movedTo]
  exact hfs.followFrom_of_mem linkLimit [] he hlink

end Files

namespace Scan

variable {fs : Files} {top : Place} {options : Options}

/-- **A listed file can be read below the top, and under its own path from the top.** Its path is read back from its
text. -/
lemma exists_text_of_mem_scan (hfs : fs.WellFormed) {root : Path} {infos : List FileInfo}
    (hroot : fs.resolve root = .ok top) (h : scan fs root options = .ok infos) {info : FileInfo} (hinfo : info ∈ infos) :
    .ofString info.path.toString = info.path ∧
      ∃ text, fs.readText ((pathOf top).join info.path) = .ok text ∧
        (fs.movedTo top).readText info.path = .ok text := by
  obtain ⟨x, -, place, hplace, hinspect⟩ := (mem_scan_iff hroot h info).mp hinfo
  obtain ⟨bytes, time, hfile⟩ := file_of_inspect? (hfs.straight_resolve hplace) hinspect
  have hnames : ∀ name ∈ place, Path.IsName name := fun name hname => (hfs.isName_of_entry?_eq_some hfile hname).1
  have hfind := hfs.find_pathOf_of_mem hfile (by simp)
  rw [path_of_inspect? hinspect, join_relativeTo, readText_of_find hfind]
  unfold relativeTo
  split_ifs with hbelow
  · obtain ⟨rest, rfl⟩ := isPrefixOf_iff_prefix.mp hbelow
    rw [drop_left]
    exact ⟨Path.ofString_toString fun name hname => hnames name (mem_append_right _ hname),
      _, rfl, readText_of_find (find_movedTo hfs hfile (by simp))⟩
  · exact ⟨Path.ofString_toString_pathOf hnames, _, rfl,
      readText_of_find (find_pathOf_movedTo hfs top hfile (by simp))⟩

end Scan

namespace Indexing

/-! ## Reports -/

/-- What is reported of a file, if it fails. -/
def complaint? (fs : Files) (cut : Cutter) (item : Item) : Option String :=
  match documentsOf fs cut item with
  | .ok _ => none
  | .error e => some (item.file ++ ": " ++ e.message)

lemma step_report (fs : Files) (cut : Cutter) (report : Report) (shelf : Shelf) (item : Item) :
    (step fs cut (report, shelf) item).1.failed = report.failed + (complaint? fs cut item).toList.length ∧
      (step fs cut (report, shelf) item).1.errors = report.errors ++ (complaint? fs cut item).toList := by
  cases hdocs : documentsOf fs cut item with
  | error e => simp [step, complaint?, hdocs, bind, Except.bind]
  | ok docs =>
    have hupdate : shelf.update docs (.text item.file) = _ := Shelf.add_eq _ docs (by norm_num)
    by_cases hempty : docs = []
    · simp [step, complaint?, hdocs, hempty, bind, Except.bind, pure, Except.pure]
    · simp [step, complaint?, hdocs, hempty, hupdate, bind, Except.bind, pure, Except.pure]

/-- **Exactly the files that cannot be read or cut are reported as failed**, in their order: storing documents never
fails. -/
lemma report_runWith (fs : Files) (cut : Cutter) (shelf : Shelf) (items : List Item) :
    (runWith fs cut shelf items).1.failed = (items.filterMap (complaint? fs cut)).length ∧
      (runWith fs cut shelf items).1.errors = items.filterMap (complaint? fs cut) := by
  have hfold : ∀ acc : Report × Shelf,
      (items.foldl (step fs cut) acc).1.failed = acc.1.failed + (items.filterMap (complaint? fs cut)).length ∧
        (items.foldl (step fs cut) acc).1.errors = acc.1.errors ++ items.filterMap (complaint? fs cut) := by
    induction items with
    | nil => simp
    | cons item items ih =>
      intro acc
      obtain ⟨hfailed, herrors⟩ := step_report fs cut acc.1 acc.2 item
      obtain ⟨ihfailed, iherrors⟩ := ih (step fs cut acc item)
      rw [foldl_cons, ihfailed, iherrors, hfailed, herrors]
      cases hcomplaint : complaint? fs cut item with
      | none => simp [hcomplaint]
      | some complaint => simp [hcomplaint]; omega
  simpa [runWith] using hfold ({}, shelf)

/-- A run depends on the files only through what is cut from them. -/
lemma runWith_congr {fs gs : Files} {cut : Cutter} {items : List Item}
    (h : ∀ item ∈ items, documentsOf fs cut item = documentsOf gs cut item) (shelf : Shelf) :
    runWith fs cut shelf items = runWith gs cut shelf items := by
  refine foldl_ext _ _ _ fun acc item hitem => ?_
  rw [step, step, h item hitem]

/-! ## Listed files -/

/-- **A file whose text is also found from the working directory**: what the path leads to from there has the same text as
the file below the top. -/
def Mirrored (fs : Files) (top : Place) (info : FileInfo) : Prop :=
  ∃ text, fs.readText info.path = .ok text ∧ fs.readText ((pathOf top).join info.path) = .ok text

/-- What is cut from a listed file is what its path leads to from the working directory. -/
lemma documentsOf_ofInfo {fs : Files} {info : FileInfo} (hpath : .ofString info.path.toString = info.path)
    (cut : Cutter) :
    documentsOf fs cut (.ofInfo info) =
      fs.readText info.path >>= fun text => cut info.path.toString text (.text info.language.tag) := by
  rw [documentsOf, Item.ofInfo, hpath]

/-- The cutter that fails and tells the text of the file. -/
def tellingText : Cutter := fun _ text _ => .error (.failedRun text)

section

variable {fs : Files} {infos : List FileInfo} (hpaths : ∀ info ∈ infos, .ofString info.path.toString = info.path)
include hpaths

/-- **No file fails by itself exactly if every path leads to some text.** -/
lemma failed_eq_zero_iff :
    (∀ cut shelf, (∀ file text language, ∃ docs, cut file text language = .ok docs) →
        (runWith fs cut shelf (infos.map .ofInfo)).1.failed = 0) ↔
      ∀ info ∈ infos, ∃ text, fs.readText info.path = .ok text := by
  have hfailed : ∀ cut shelf, (runWith fs cut shelf (infos.map .ofInfo)).1.failed = 0 ↔
      ∀ info ∈ infos, complaint? fs cut (.ofInfo info) = none := by
    intro cut shelf
    rw [(report_runWith fs cut shelf _).1, length_eq_zero_iff, filterMap_eq_nil_iff, forall_mem_map]
  simp only [hfailed]
  constructor
  · intro h info hinfo
    -- a file from which nothing is cut fails only if it cannot be read
    have hnone := h (fun _ _ _ => .ok []) (Client.open_ {}) (fun _ _ _ => ⟨[], rfl⟩) info hinfo
    rw [complaint?, documentsOf_ofInfo (hpaths info hinfo)] at hnone
    cases htext : fs.readText info.path with
    | ok text => exact ⟨text, rfl⟩
    | error e => simp [htext, bind, Except.bind] at hnone
  · intro h cut _ hcut info hinfo
    obtain ⟨text, htext⟩ := h info hinfo
    obtain ⟨docs, hdocs⟩ := hcut info.path.toString text (.text info.language.tag)
    have hok : documentsOf fs cut (.ofInfo info) = .ok docs := by
      rw [documentsOf_ofInfo (hpaths info hinfo), htext]
      exact hdocs
    rw [complaint?, hok]

/-- Texts can be told from the complaints about them. -/
lemma errors_tellingText {textOf : FileInfo → String} (h : ∀ info ∈ infos, fs.readText info.path = .ok (textOf info))
    (shelf : Shelf) :
    (runWith fs tellingText shelf (infos.map .ofInfo)).1.errors =
      infos.map fun info => info.path.toString ++ ": " ++ textOf info := by
  rw [(report_runWith fs tellingText shelf _).2, filterMap_map, ← filterMap_eq_map]
  refine filterMap_congr fun info hinfo => ?_
  rw [Function.comp_apply, complaint?, documentsOf_ofInfo (hpaths info hinfo), h info hinfo]
  rfl

/-- **Two trees from which the same paths are read give the same index exactly if they have the same texts under them**,
if all can be read in one of them.

**Proof sketch.** If the index is always the same, then no file fails by itself in either tree, and a cutter that tells the
text of each file tells the same. -/
lemma runWith_eq_iff {gs : Files} {textOf : FileInfo → String}
    (h : ∀ info ∈ infos, gs.readText info.path = .ok (textOf info)) :
    (∀ cut shelf, runWith fs cut shelf (infos.map .ofInfo) = runWith gs cut shelf (infos.map .ofInfo)) ↔
      ∀ info ∈ infos, fs.readText info.path = .ok (textOf info) := by
  constructor
  · intro hsame
    have hreadable : ∀ info ∈ infos, ∃ text, fs.readText info.path = .ok text := by
      refine (failed_eq_zero_iff hpaths).mp fun cut shelf hcut => ?_
      rw [hsame]
      exact (failed_eq_zero_iff hpaths).mpr (fun info hinfo => ⟨_, h info hinfo⟩) cut shelf hcut
    choose! textOf' htext' using hreadable
    have herrors := congrArg (·.1.errors) (hsame tellingText (Client.open_ {}))
    rw [errors_tellingText hpaths htext', errors_tellingText hpaths h, map_inj_left] at herrors
    intro info hinfo
    rw [htext' info hinfo]
    congr 1
    exact String.append_right_inj _ |>.mp (herrors info hinfo)
  · intro htext cut shelf
    refine runWith_congr (forall_mem_map.mpr fun info hinfo => ?_) shelf
    rw [documentsOf_ofInfo (hpaths info hinfo), documentsOf_ofInfo (hpaths info hinfo), htext info hinfo, h info hinfo]

end

/-- **When an index does not depend on the working directory.** From the top of a repository, the documents of a listed file
are cut from the text of that file. From elsewhere, the index is the same exactly if every listed file is mirrored in the
working directory, and no file fails by itself exactly if every listed path leads to some text from there. -/
theorem indexing_reads_from_working_directory {fs : Files} (hfs : fs.WellFormed) {root : Path} {top : Place}
    {options : Scan.Options} {infos : List FileInfo} (hroot : fs.resolve root = .ok top)
    (hscan : Scan.scan fs root options = .ok infos) :
    (∀ info ∈ infos, ∃ text, fs.readText ((Files.pathOf top).join info.path) = .ok text ∧
      ∀ cut, documentsOf (fs.movedTo top) cut (.ofInfo info) = cut info.path.toString text (.text info.language.tag)) ∧
    ((∀ cut shelf, runWith fs cut shelf (infos.map .ofInfo) = runWith (fs.movedTo top) cut shelf (infos.map .ofInfo)) ↔
      ∀ info ∈ infos, Mirrored fs top info) ∧
    ((∀ cut shelf, (∀ file text language, ∃ docs, cut file text language = .ok docs) →
        (runWith fs cut shelf (infos.map .ofInfo)).1.failed = 0) ↔
      ∀ info ∈ infos, ∃ text, fs.readText info.path = .ok text) := by
  have hlisted : ∀ info ∈ infos, .ofString info.path.toString = info.path ∧
      ∃ text, fs.readText ((Files.pathOf top).join info.path) = .ok text ∧
        (fs.movedTo top).readText info.path = .ok text :=
    fun info hinfo => Scan.exists_text_of_mem_scan hfs hroot hscan hinfo
  have hpaths : ∀ info ∈ infos, .ofString info.path.toString = info.path := fun info hinfo => (hlisted info hinfo).1
  choose! textOf hunder hmoved using fun info hinfo => (hlisted info hinfo).2
  refine ⟨fun info hinfo => ⟨textOf info, hunder info hinfo, fun cut => ?_⟩, ?_, failed_eq_zero_iff hpaths⟩
  · rw [documentsOf_ofInfo (hpaths info hinfo), hmoved info hinfo]
    rfl
  · rw [runWith_eq_iff hpaths hmoved]
    refine forall₂_congr fun info hinfo => ?_
    rw [Mirrored, hunder info hinfo]
    simp

/-- A repository that is not the working directory. -/
def nested : Files :=
  ⟨[(["repo"], .folder), (["repo", "a.js"], .file [] 0)], []⟩

/-- What the repository is scanned for. -/
def allScripts : Scan.Options :=
  { wanted := ["*.js"], unwanted := [], maxBytes := 100 }

lemma wellFormed_nested : nested.WellFormed where
  toRooted := Rooted.of_entries (by decide) (by decide)
  distinct := by decide
  ne_nil := by decide
  named := by decide

lemma resolve_nested : nested.resolve (.ofString "repo") = .ok ["repo"] := by cbv

/-- The file of the repository is listed. -/
lemma exists_scan_nested : ∃ infos, Scan.scan nested (.ofString "repo") allScripts = .ok infos ∧
    (⟨"", ["a.js"]⟩ : Path) ∈ infos.map (·.path) := by
  have hlinks : nested.LinkFreeBelow ["repo"] := by
    intro names target hlink
    have hmem := mem_of_entry?_eq_some (by simp) hlink
    simp [nested] at hmem
  have hrules : Scan.rules nested (pathOf ["repo"]) allScripts = [] := by
    have hlines : Scan.ignoreLines nested (pathOf ["repo"]) = [] := by cbv
    rw [Scan.rules, hlines]
    rfl
  have hadmitted : Scan.Admitted nested ["repo"] allScripts ["a.js"] := by
    rw [Scan.admitted_singleton_iff, hrules]
    decide +kernel
  obtain ⟨infos, hscan⟩ := Scan.exists_scan_below wellFormed_nested hlinks resolve_nested allScripts
  exact ⟨infos, hscan, (Scan.mem_map_path_iff wellFormed_nested hlinks resolve_nested hscan).mpr
    ⟨["a.js"], rfl, hadmitted, [], 0, rfl, by decide⟩⟩

/-- The file of the repository fails even if nothing is wrong with it. -/
theorem indexing_fails_nested :
    ∃ infos, Scan.scan nested (.ofString "repo") allScripts = .ok infos ∧
      ¬ (∀ cut shelf, (∀ file text language, ∃ docs, cut file text language = .ok docs) →
        (runWith nested cut shelf (infos.map .ofInfo)).1.failed = 0) ∧
      ¬ ∀ cut shelf, runWith nested cut shelf (infos.map .ofInfo) =
        runWith (nested.movedTo ["repo"]) cut shelf (infos.map .ofInfo) := by
  obtain ⟨infos, hscan, hmem⟩ := exists_scan_nested
  obtain ⟨info, hinfo, hpath⟩ := List.mem_map.mp hmem
  have hmissing : nested.readText info.path = .error (.file .missing "a.js") := by
    rw [hpath]
    cbv
  obtain ⟨-, hsame, hfailed⟩ := indexing_reads_from_working_directory wellFormed_nested resolve_nested hscan
  refine ⟨infos, hscan, fun h => ?_, fun h => ?_⟩
  · obtain ⟨text, htext⟩ := hfailed.mp h info hinfo
    cases hmissing.symm.trans htext
  · obtain ⟨text, htext, -⟩ := hsame.mp h info hinfo
    cases hmissing.symm.trans htext

end Indexing

end CodeAudit
