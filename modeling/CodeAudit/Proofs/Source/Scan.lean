import CodeAudit.Proofs.Files.Visit
import CodeAudit.Proofs.Outcome
import CodeAudit.Source.Scan

/-!
# What a scan lists

A scan prunes directories on its way down and filters the files that it meets. On a tree without links the
outcome can be told without the walk: a file is listed exactly if no directory above it is closed or unwanted, it
is not unwanted itself, it is wanted, it is not too large, and it can be read. The list rises strictly by the
text of the paths, so it does not depend on the order in which directories are listed.

## Main definitions

* `Scan.Listed` — the condition under which a file is listed.
* `Scan.Meets` — what the walk of a scan meets, links included.

## Main results

* `Scan.inspect?_eq_some_iff` — when a file that is met is listed.
* `Scan.mem_scan_iff_listed` — what a scan lists.
-/

namespace CodeAudit.Scan

open Files List

variable {dir names : List String} {name : String}

/-- What is told of a file, by its names below the top, its entry and its text. -/
def describe (names : List String) (e : Entry) (text : String) : FileInfo :=
  ⟨⟨"", names⟩, Files.sizeOf e, text.toList.count '\n' + 1, Language.ofSuffix ⟨"", names⟩⟩

/-- **The condition under which a file is listed**, by its names below the top, its entry and its text. -/
structure Listed (fs : Files) (top : Place) (options : Options) (names : List String) (e : Entry)
    (text : String) : Prop where
  /-- The file stands below the top and is no directory. -/
  below : names ≠ []
  stands : fs.entry? (top ++ names) = some e
  file : e ≠ .folder
  /-- No directory between the top and the file is closed or unwanted. -/
  reached : ∀ dir, dir <+: names → dir ≠ [] → dir ≠ names →
    Path.name ⟨"", dir⟩ ∉ closedFolders ∧ isUnwanted (rules fs (Files.pathOf top) options) options ⟨"", dir⟩ = false
  allowed : isUnwanted (rules fs (Files.pathOf top) options) options ⟨"", names⟩ = false
  wanted : Shell.fitsAny options.wanted (Path.toString ⟨"", names⟩) = true
  small : (Files.sizeOf e : ℤ) ≤ options.maxBytes
  readable : fs.readText (Files.pathOf (top ++ names)) = .ok text

variable {fs : Files} {top : Place} {options : Options}

@[simp] lemma relativeTo_append (top : Place) (names : List String) :
    relativeTo top (top ++ names) = ⟨"", names⟩ := by
  simp [relativeTo]

/-- A directory below the top is known by its names from there. -/
lemma knownAs_pathOf (hdir : fs.Straight (top ++ dir)) : knownAs fs top (pathOf (top ++ dir)) = ⟨"", dir⟩ := by
  rw [knownAs, hdir.resolve_pathOf]
  simp

/-- A directory is entered if it is neither closed nor unwanted. -/
lemma enters_iff {rules : List Ignore.Rule} : enters rules options ⟨"", dir⟩ name = true ↔
      name ∉ closedFolders ∧ isUnwanted rules options ⟨"", dir ++ [name]⟩ = false := by
  simp [enters, Files.extend]

/-- All directories on the way to a file are entered exactly if none of them is closed or unwanted. -/
lemma open_iff_reached {rules : List Ignore.Rule} {way : List String} (hway : fs.Straight (top ++ way)) :
    Files.Open (fun dir name => enters rules options (knownAs fs top dir) name) top way ↔
      ∀ dir, dir <+: way ++ [name] → dir ≠ [] → dir ≠ way ++ [name] →
        Path.name ⟨"", dir⟩ ∉ closedFolders ∧ isUnwanted rules options ⟨"", dir⟩ = false := by
  -- what entering the last directory of a part of the way means
  have hstep : ∀ dir last, dir ++ [last] <+: way →
      (enters rules options (knownAs fs top (pathOf (top ++ dir))) last = true ↔
        Path.name ⟨"", dir ++ [last]⟩ ∉ closedFolders ∧
          isUnwanted rules options ⟨"", dir ++ [last]⟩ = false) := by
    intro dir last hdir
    have hstarts : top ++ dir <+: top ++ way :=
      (prefix_append_right_inj top).mpr ((prefix_append dir [last]).trans hdir)
    rw [knownAs_pathOf (hway.of_prefix hstarts), enters_iff]
    simp [Path.name]
  constructor
  · intro hopen dir hdir hnil hne
    rcases eq_nil_or_concat' dir with rfl | ⟨front, last, rfl⟩
    · exact absurd rfl hnil
    · have hway' := (prefix_concat_iff.mp hdir).resolve_left hne
      exact (hstep front last hway').mp (hopen front last hway')
  · intro hreached dir last hdir
    have hne : dir ++ [last] ≠ way ++ [name] := by
      intro heq
      have := congrArg List.length heq
      have := hdir.length_le
      simp only [length_append, length_singleton] at *
      omega
    exact (hstep dir last hdir).mpr (hreached _ (hdir.trans (prefix_append _ _)) (by simp) hne)

/-- What holds of the last names of all directories above a file holds of all names before its own. -/
lemma forall_above_iff {P : String → Prop} :
    (∀ dir, dir <+: names → dir ≠ [] → dir ≠ names → P (Path.name ⟨"", dir⟩)) ↔ ∀ dir ∈ names.dropLast, P dir := by
  constructor
  · intro h dir hdir
    obtain ⟨front, back, hsplit⟩ := append_of_mem hdir
    have hstarts : front ++ [dir] <+: names.dropLast := ⟨back, by simp [hsplit]⟩
    have hne : front ++ [dir] ≠ names := by
      rintro rfl
      simpa using hstarts.length_le
    simpa [Path.name] using h _ (hstarts.trans ( dropLast_prefix _)) (by simp) hne
  · intro h dir hdir hnil hne
    obtain rfl | ⟨front, last, rfl⟩ := eq_nil_or_concat' dir
    · exact absurd rfl hnil
    · obtain rfl | ⟨above, name, rfl⟩ := eq_nil_or_concat' names
      · exact absurd (prefix_nil.mp hdir) hnil
      · have hstarts := (prefix_concat_iff.mp hdir).resolve_left hne
        rw [dropLast_concat] at h
        simpa [Path.name] using h last (hstarts.subset (by simp))

/-- **When a file that is met is listed.** -/
lemma inspect?_eq_some_iff (hfs : fs.WellFormed) {rules : List Ignore.Rule} {e : Entry}
    (he : fs.entry? (top ++ names) = some e) (hlink : ∀ target, e ≠ .link target) :
    ∃ o, inspect? fs top rules options (top ++ names) = .ok o ∧
      ∀ info, o = some info ↔ isUnwanted rules options ⟨"", names⟩ = false ∧
        Shell.fitsAny options.wanted (Path.toString ⟨"", names⟩) = true ∧
        (Files.sizeOf e : ℤ) ≤ options.maxBytes ∧
        ∃ text, fs.readText (Files.pathOf (top ++ names)) = .ok text ∧ info = describe names e text := by
  have hfind := hfs.find_pathOf_of_mem he hlink
  unfold inspect?
  simp only [relativeTo_append, hfind]
  split_ifs with hout hlarge
  · refine ⟨none, rfl, fun info => ?_⟩
    simp only [Bool.or_eq_true, Bool.not_eq_true'] at hout
    rcases hout with hout | hout <;> simp [hout]
  · exact ⟨none, rfl, fun info => by simp [not_le.mpr hlarge]⟩
  · simp only [Bool.or_eq_true, Bool.not_eq_true', not_or, Bool.not_eq_true, Bool.not_eq_false] at hout
    cases htext : fs.readText (Files.pathOf (top ++ names)) with
    | error f => exact ⟨none, rfl, fun info => by simp⟩
    | ok text =>
      refine ⟨some (describe names e text), rfl, fun info => ?_⟩
      simp [hout, not_lt.mp hlarge, eq_comm]

/-- The files that a scan meets. -/
def met (fs : Files) (top : Place) (options : Options) : List (Path × String) :=
  fs.visit options.throughLinks
    (fun dir name => enters (rules fs (pathOf top) options) options (knownAs fs top dir) name)
    fs.depthLimit (pathOf top)

/-- What is listed of a file that is met. -/
def look? (fs : Files) (top : Place) (options : Options) (x : Path × String) : Except Fault (Option FileInfo) := do
  inspect? fs top (rules fs (pathOf top) options) options (← fs.resolve (Files.extend x.1 x.2))

lemma scan_eq (options : Options) {root : Path} (hroot : fs.resolve root = .ok top) :
    scan fs root options = (met fs top options).mapM (look? fs top options) >>= fun infos =>
      .ok ((infos.filterMap id).mergeSort fun a b => !(b.path.toString < a.path.toString)) := by
  simp only [scan, hroot, Sequence.sorted_eq]
  rfl

/-- **What a scan meets**, by its names below the top: what stands there and leads to no directory, if no directory
between is closed or unwanted. -/
structure Meets (fs : Files) (top : Place) (options : Options) (names : List String) : Prop where
  below : names ≠ []
  stands : ∃ e, fs.entry? (top ++ names) = some e
  file : fs.isFolder (pathOf (top ++ names)) = false
  reached : ∀ dir, dir <+: names → dir ≠ [] → dir ≠ names →
    Path.name ⟨"", dir⟩ ∉ closedFolders ∧ isUnwanted (rules fs (pathOf top) options) options ⟨"", dir⟩ = false

/-- A scan that does not go through links meets what it should, on any tree. -/
lemma mem_met_iff_meets (hfs : fs.WellFormed) (htop : fs.Straight top)
    (hlinks : options.throughLinks = true → fs.LinkFreeBelow top) {x : Path × String} :
    x ∈ met fs top options ↔
      ∃ way name, x = (pathOf (top ++ way), name) ∧ Meets fs top options (way ++ [name]) := by
  -- the directory of an entry is reached without links
  have hstraight : ∀ {way name e}, fs.entry? (top ++ (way ++ [name])) = some e → fs.Straight (top ++ way) := by
    intro way name e he
    rw [← append_assoc] at he
    exact hfs.straight_of_mem (hfs.toRooted.entry?_of_append (by simp) he) (by simp)
  obtain ⟨dir, name⟩ := x
  rw [met, mem_visit_iff hfs htop hlinks]
  constructor
  · rintro ⟨way, e, -, rfl, he, hfile, hopen⟩
    rw [append_assoc] at he hfile
    exact ⟨way, name, rfl, by simp, ⟨e, he⟩, hfile, (open_iff_reached (hstraight he)).mp hopen⟩
  · rintro ⟨way, name', heq, -, ⟨e, he⟩, hfile, hreached⟩
    obtain ⟨rfl, rfl⟩ : dir = pathOf (top ++ way) ∧ name = name' := by simpa using heq
    refine ⟨way, e, ?_, rfl, by rwa [append_assoc], by rwa [append_assoc],
      (open_iff_reached (hstraight he)).mpr hreached⟩
    -- the way is shorter than the number of entries
    have hlen := hfs.length_le_entries he
    simp only [length_append, length_singleton] at hlen
    simp only [depthLimit, linkLimit]
    omega

section Below

variable (hfs : fs.WellFormed) (h : fs.LinkFreeBelow top) (htop : fs.Straight top)

include hfs h htop

/-- Without links below the top, a scan meets the files over which no directory is closed or unwanted. -/
lemma mem_met_below_iff {x : Path × String} :
    x ∈ met fs top options ↔ ∃ way name e, x = (pathOf (top ++ way), name) ∧
      fs.entry? (top ++ (way ++ [name])) = some e ∧ e ≠ .folder ∧
      ∀ dir, dir <+: way ++ [name] → dir ≠ [] → dir ≠ way ++ [name] →
        Path.name ⟨"", dir⟩ ∉ closedFolders ∧
          isUnwanted (rules fs (pathOf top) options) options ⟨"", dir⟩ = false := by
  have hfolder : ∀ {names e}, fs.entry? (top ++ names) = some e →
      (fs.isFolder (pathOf (top ++ names)) = false ↔ e ≠ .folder) := by
    intro names e he
    have hstraight := hfs.straight_of_mem he fun target heq => h names target (he.trans (congrArg some heq))
    rw [← Bool.not_eq_true, hfs.isFolder_straight_iff hstraight, he]
    simp
  rw [mem_met_iff_meets hfs htop fun _ => h]
  constructor
  · rintro ⟨way, name, rfl, -, ⟨e, he⟩, hfile, hreached⟩
    exact ⟨way, name, e, rfl, he, (hfolder he).mp hfile, hreached⟩
  · rintro ⟨way, name, e, rfl, he, hfile, hreached⟩
    exact ⟨way, name, rfl, by simp, ⟨e, he⟩, (hfolder he).mpr hfile, hreached⟩

/-- A file that is met can be looked at, and is listed exactly if it meets the condition. -/
lemma look?_met_below {x : Path × String} (hx : x ∈ met fs top options) :
    ∃ o, look? fs top options x = .ok o ∧ ∀ info, o = some info ↔
      ∃ way name e text, x = (pathOf (top ++ way), name) ∧
        Listed fs top options (way ++ [name]) e text ∧ info = describe (way ++ [name]) e text := by
  obtain ⟨way, name, e, rfl, he, hfile, hreached⟩ := (mem_met_below_iff hfs h htop).mp hx
  have hlink : ∀ target, e ≠ .link target := fun target heq => h _ target (he.trans (congrArg some heq))
  obtain ⟨o, ho, hsome⟩ := inspect?_eq_some_iff hfs he hlink
  refine ⟨o, ?_, fun info => ?_⟩
  · rw [look?, extend_pathOf, append_assoc, (hfs.straight_of_mem he hlink).resolve_pathOf]
    exact ho
  · rw [hsome]
    constructor
    · rintro ⟨hallowed, hwanted, hsmall, text, htext, rfl⟩
      exact ⟨way, name, e, text, rfl, ⟨by simp, he, hfile, hreached, hallowed, hwanted, hsmall, htext⟩, rfl⟩
    · rintro ⟨way', name', e', text, heq, hlisted, rfl⟩
      obtain ⟨rfl, rfl⟩ : way = way' ∧ name = name' := by simpa [pathOf] using heq
      obtain rfl : e = e' := Option.some.inj (he.symm.trans hlisted.stands)
      exact ⟨hlisted.allowed, hlisted.wanted, hlisted.small, text, hlisted.readable, rfl⟩

end Below

section Met

variable (hfs : fs.WellFormed) (h : fs.LinkFree) (htop : ".." ∉ top)

include hfs h htop

/-- A scan of a tree without links meets the files below the top over which no directory is closed or unwanted. -/
lemma mem_met_iff {x : Path × String} :
    x ∈ met fs top options ↔ ∃ way name e, x = (pathOf (top ++ way), name) ∧
      fs.entry? (top ++ (way ++ [name])) = some e ∧ e ≠ .folder ∧
      ∀ dir, dir <+: way ++ [name] → dir ≠ [] → dir ≠ way ++ [name] →
        Path.name ⟨"", dir⟩ ∉ closedFolders ∧
          isUnwanted (rules fs (pathOf top) options) options ⟨"", dir⟩ = false :=
  mem_met_below_iff hfs (h.below top) (h.isStraight htop)

/-- A file that is met in a tree without links can be looked at, and is listed exactly if it meets the condition. -/
lemma look?_met {x : Path × String} (hx : x ∈ met fs top options) :
    ∃ o, look? fs top options x = .ok o ∧ ∀ info, o = some info ↔
      ∃ way name e text, x = (pathOf (top ++ way), name) ∧
        Listed fs top options (way ++ [name]) e text ∧ info = describe (way ++ [name]) e text :=
  look?_met_below hfs (h.below top) (h.isStraight htop) hx

end Met

/-- Different files that are listed have different paths. -/
lemma Listed.names_eq (hfs : fs.WellFormed) {names' : List String} {e e' : Entry} {text text' : String}
    (hl : Listed fs top options names e text) (hl' : Listed fs top options names' e' text')
    (heq : (describe names e text).path.toString = (describe names' e' text').path.toString) :
    names = names' := by
  refine Path.toString_injective (fun name hname => ?_) (fun name hname => ?_) heq
  · exact (hfs.isName_of_entry?_eq_some hl.stands (mem_append_right _ hname)).1
  · exact (hfs.isName_of_entry?_eq_some hl'.stands (mem_append_right _ hname)).1

/-- Files that are listed by a path which none of them shares with another rise strictly. -/
lemma pairwise_lt_mergeSort {infos : List FileInfo}
    (h : infos.Pairwise fun a b => a.path.toString ≠ b.path.toString) :
    (infos.mergeSort fun a b => !(b.path.toString < a.path.toString)).Pairwise
      fun a b => a.path.toString < b.path.toString :=
  Sequence.pairwise_lt_mergeSort (fun info : FileInfo => info.path.toString) h

/-- **What a scan lists.** On a tree without links a scan succeeds. Its list rises strictly by the text of the
paths, and tells of exactly the files that meet the condition.

**Proof sketch.** The walk meets a file below the top once, if all directories above it are entered
(`Files.mem_visit_iff`, `Files.nodup_visit`); its depth limit is never reached, because no place is deeper than
the number of entries. Every file that is met can be looked at, so no step fails, and the rest of the condition
is that of `inspect?`. Different files have different paths, whose texts are different. -/
theorem mem_scan_iff_listed (fs : Files) (hfs : fs.WellFormed) (h : fs.LinkFree) (root : Path)
    (options : Options) :
    ∃ top infos, fs.resolve root = .ok top ∧ scan fs root options = .ok infos ∧
      infos.Pairwise (fun a b => a.path.toString < b.path.toString) ∧
      ∀ info, info ∈ infos ↔ ∃ names e text, Listed fs top options names e text ∧ info = describe names e text := by
  have hroot : fs.resolve root = .ok (Files.straight (fs.start root) root.names) := h.resolveFrom_eq _ _ _
  have htop : ".." ∉ Files.straight (fs.start root) root.names := by
    refine Files.points_not_mem_straight ?_ _
    unfold Files.start
    split
    · simp
    · exact hfs.points_not_mem hfs.here
  set top := Files.straight (fs.start root) root.names
  -- no file that is met makes the scan fail
  choose! listing hlook hlisting using fun x (hx : x ∈ met fs top options) => look?_met hfs h htop hx
  have hscan := scan_eq options hroot
  rw [Outcome.mapM_eq_ok hlook] at hscan
  refine ⟨top, _, hroot, hscan, ?_, fun info => ?_⟩
  · refine pairwise_lt_mergeSort ?_
    rw [List.filterMap_map, List.pairwise_filterMap]
    refine List.Pairwise.imp_of_mem (fun {x y} hx hy hne a ha b hb heq => hne ?_)
      (Files.nodup_visit hfs h htop)
    obtain ⟨way, name, e, text, rfl, hl, rfl⟩ := (hlisting x hx a).mp ha
    obtain ⟨way', name', e', text', rfl, hl', rfl⟩ := (hlisting y hy b).mp hb
    obtain ⟨rfl, rfl⟩ : way = way' ∧ name = name' := by simpa using hl.names_eq hfs hl' heq
    rfl
  · rw [List.mem_mergeSort, List.filterMap_map, List.mem_filterMap]
    constructor
    · rintro ⟨x, hx, ho⟩
      obtain ⟨way, name, e, text, -, hl, rfl⟩ := (hlisting x hx info).mp ho
      exact ⟨_, e, text, hl, rfl⟩
    · rintro ⟨names, e, text, hl, rfl⟩
      obtain rfl | ⟨way, name, rfl⟩ := List.eq_nil_or_concat' names
      · exact absurd rfl hl.below
      · have hmet : (Files.pathOf (top ++ way), name) ∈ met fs top options :=
          (mem_met_iff hfs h htop).mpr ⟨way, name, e, rfl, hl.stands, hl.file, hl.reached⟩
        exact ⟨_, hmet, (hlisting _ hmet _).mpr ⟨way, name, e, text, rfl, hl, rfl⟩⟩

/-- A repository with a file at its top and one in a directory that is never entered. -/
def oneClosed : Files :=
  ⟨[(["r"], .folder), (["r", "a.py"], .file [49, 10] 0), (["r", "venv"], .folder),
    (["r", "venv", "b.py"], .file [50] 0)], ["r"]⟩

/-- The file at the top is listed, and the other one is not. -/
theorem scan_oneClosed :
    ∃ infos, scan oneClosed ⟨"", []⟩ { wanted := ["*.py"], unwanted := [], maxBytes := 100 } = .ok infos ∧
      describe ["a.py"] (.file [49, 10] 0) "1\n" ∈ infos ∧
      ∀ info ∈ infos, info.path ≠ ⟨"", ["venv", "b.py"]⟩ := by
  have hfs : oneClosed.WellFormed :=
    { toRooted := Files.Rooted.of_entries (by decide) (by decide)
      distinct := by decide
      ne_nil := by decide
      named := by decide }
  have hlinks : oneClosed.LinkFree := by
    intro place target hlink
    by_cases hnil : place = []
    · simp [hnil] at hlink
    · have hmem := Files.mem_of_entry?_eq_some hnil hlink
      simp [oneClosed] at hmem
  obtain ⟨top, infos, htop, hscan, -, hmem⟩ := mem_scan_iff_listed oneClosed hfs hlinks ⟨"", []⟩
    { wanted := ["*.py"], unwanted := [], maxBytes := 100 }
  obtain rfl : ["r"] = top := by
    have hr : oneClosed.resolve ⟨"", []⟩ = .ok ["r"] := by cbv
    exact Except.ok.inj (hr.symm.trans htop)
  refine ⟨infos, hscan, (hmem _).mpr ⟨["a.py"], .file [49, 10] 0, "1\n", ?_, rfl⟩, ?_⟩
  · refine ⟨by simp, by decide, by simp, fun dir hdir hnil hne => ?_, ?_, ?_, by decide, ?_⟩
    · rcases List.prefix_cons_iff.mp hdir with rfl | ⟨rest, rfl, hrest⟩
      · exact absurd rfl hnil
      · exact absurd (by rw [List.prefix_nil.mp hrest]) hne
    · cbv
    · cbv
    · cbv
  · rintro info hinfo hpath
    obtain ⟨names, e, text, hl, rfl⟩ := (hmem info).mp hinfo
    obtain rfl : names = ["venv", "b.py"] := by simpa [describe] using hpath
    have hclosed := (hl.reached ["venv"] (by simp) (by simp) (by simp)).1
    revert hclosed
    decide

end CodeAudit.Scan
