import CodeAudit.Analysis.Basic
import CodeAudit.Proofs.Glob.Ignore
import CodeAudit.Proofs.Glob.Shell
import CodeAudit.Proofs.Source.Contents

/-!
# What the usual patterns cover

The usual patterns are written to ask for the source files at every depth. Their stars stand for any text, but the slash
between them stands for itself, so a file right below the top is not asked for. The patterns that are usually unwanted
name directories that are closed anyway, so behind open directories they leave out nothing.

## Main definitions

* `Scan.Source` — a source file of a repository, outside of closed directories.

## Main results

* `Scan.usual_scan_leaves_out_top` — a scan by the usual patterns lists exactly the source files in the
  directories below the top.
* `Scan.isUnwanted_usual` — behind open directories the usual patterns leave out nothing.
-/

namespace CodeAudit.Scan

open Files List Ignore

open Analysis (usualWanted usualUnwanted)

/-- The endings of the files that are usually wanted. -/
def usualEndings : List String := [".py", ".js", ".ts"]

/-- **A source file of a repository** that is not too large and can be read, outside of closed directories: by its names
below the top, its entry and its text. -/
structure Source (fs : Files) (top : Place) (maxBytes : ℤ) (names : List String) (e : Entry) (text : String) : Prop where
  below : names ≠ []
  stands : fs.entry? (top ++ names) = some e
  ending : ∃ ending ∈ usualEndings, ending.toList <:+ (Path.name ⟨"", names⟩).toList
  reached : ∀ dir ∈ names.dropLast, dir ∉ closedFolders
  small : (Files.sizeOf e : ℤ) ≤ maxBytes
  readable : fs.readText (Files.pathOf (top ++ names)) = .ok text

variable {fs : Files} {top : Place}

/-! ## Wanted files -/

/-- What can be read is no directory. -/
lemma Source.file (hfs : fs.WellFormed) {maxBytes : ℤ} {names : List String} {e : Entry} {text : String}
    (h : Source fs top maxBytes names e text) : e ≠ .folder := by
  rintro rfl
  obtain ⟨bytes, time, hfile⟩ := (hfs.straight_of_mem h.stands (by simp)).file_of_readText h.readable
  rw [h.stands] at hfile
  cases hfile

/-- **When a path is asked for by the usual patterns**: it has a directory, and its last name has one of the endings. -/
lemma usualWanted_iff {names : List String} (hne : names ≠ []) (h : ∀ name ∈ names, Path.IsName name) :
    Shell.fitsAny usualWanted (Path.toString ⟨"", names⟩) = true ↔
      2 ≤ names.length ∧ ∃ ending ∈ usualEndings, ending.toList <:+ (Path.name ⟨"", names⟩).toList := by
  have hpatterns : usualWanted = usualEndings.map ("**/*" ++ ·) := by decide
  have hfits : ∀ ending ∈ usualEndings, (Shell.fits ("**/*" ++ ending) (Path.toString ⟨"", names⟩) = true ↔
      2 ≤ names.length ∧ ending.toList <:+ (Path.name ⟨"", names⟩).toList) := by
    intro ending hending
    have hplain : (∀ c ∈ ending.toList, Shell.Plain c) ∧ '/' ∉ ending.toList := by
      simp only [usualEndings, mem_cons, not_mem_nil, or_false] at hending
      rcases hending with rfl | rfl | rfl <;> simp [Shell.Plain]
    rw [Shell.fits_ending_iff hplain.1,
      Path.slash_before_ending_iff hne (fun name hname => (h name hname).no_slash) hplain.2]
  rw [Shell.fitsAny, hpatterns, any_map, any_eq_true]
  constructor
  · rintro ⟨ending, hending, hfit⟩
    obtain ⟨hlen, hsuffix⟩ := (hfits ending hending).mp hfit
    exact ⟨hlen, ending, hending, hsuffix⟩
  · rintro ⟨hlen, ending, hending, hsuffix⟩
    exact ⟨ending, hending, (hfits ending hending).mpr ⟨hlen, hsuffix⟩⟩

/-- Where no ignore file stands, there are no lines of one. -/
lemma ignoreLines_eq_nil (hplace : fs.Straight (top ++ [".gitignore"]))
    (hignore : ∀ bytes time, fs.entry? (top ++ [".gitignore"]) ≠ some (.file bytes time)) :
    ignoreLines fs (pathOf top) = [] := by
  rw [ignoreLines, extend_pathOf]
  split
  · rename_i text htext
    obtain ⟨bytes, time, hfile⟩ := hplace.file_of_readText htext
    exact absurd hfile (hignore bytes time)
  · rfl

/-- The lines of an ignore file. -/
lemma ignoreLines_of_file (hfs : fs.WellFormed) {bytes : List UInt8} {time : ℤ}
    (h : fs.entry? (top ++ [".gitignore"]) = some (.file bytes time)) :
    ignoreLines fs (pathOf top) = Text.lines (textOf bytes) := by
  rw [ignoreLines, extend_pathOf, readText_of_find (hfs.find_pathOf_of_mem h (by simp))]

/-- Without an ignore file and without unwanted patterns, nothing is unwanted. -/
lemma isUnwanted_eq_false {options : Options} (hlines : ignoreLines fs (pathOf top) = [])
    (hnone : options.unwanted = []) (p : Path) :
    isUnwanted (rules fs (pathOf top) options) options p = false := by
  have hrules : rules fs (pathOf top) options = [] := by
    rw [rules, hlines, hnone]
    split_ifs <;> rfl
  rw [isUnwanted, hrules, hnone]
  rfl

/-- **A scan by the usual patterns lists exactly the source files in the directories below the top**, and none of those
right below it.

**Proof sketch.** With nothing unwanted, a file is listed if no directory above it is closed, it is asked for, it is
small enough and it can be read (`mem_scan_below_iff`). The usual patterns ask for the endings behind a slash, and the
path of a file right below the top has no slash. -/
theorem usual_scan_leaves_out_top (hfs : fs.WellFormed) {root : Path} (hroot : fs.resolve root = .ok top)
    (hlinks : fs.LinkFreeBelow top) (hignore : fs.entry? (top ++ [".gitignore"]) = none) (maxBytes : ℤ) :
    ∃ infos, scan fs root { wanted := usualWanted, unwanted := [], maxBytes } = .ok infos ∧
      ∀ info, info ∈ infos ↔ ∃ names e text,
        Source fs top maxBytes names e text ∧ 2 ≤ names.length ∧ info = describe names e text := by
  obtain ⟨infos, hscan⟩ := exists_scan_below hfs hlinks hroot { wanted := usualWanted, unwanted := [], maxBytes }
  have hplace : fs.Straight (top ++ [".gitignore"]) := (hfs.straight_resolve hroot).concat (by decide) (by simp [hignore])
  have hallowed : ∀ p, isUnwanted (rules fs (Files.pathOf top) { wanted := usualWanted, unwanted := [], maxBytes })
      { wanted := usualWanted, unwanted := [], maxBytes } p = false :=
    isUnwanted_eq_false (ignoreLines_eq_nil hplace (by simp [hignore])) rfl
  refine ⟨infos, hscan, fun info => ?_⟩
  rw [mem_scan_below_iff hfs hlinks hroot hscan]
  have hnames : ∀ {names : List String} {e : Entry}, fs.entry? (top ++ names) = some e →
      ∀ name ∈ names, Path.IsName name := fun he name hname =>
    (hfs.isName_of_entry?_eq_some he (List.mem_append_right _ hname)).1
  constructor
  · rintro ⟨names, e, text, hl, rfl⟩
    obtain ⟨hlen, hending⟩ := (usualWanted_iff hl.below (hnames hl.stands)).mp hl.wanted
    have hreached : ∀ dir ∈ names.dropLast, dir ∉ closedFolders :=
      forall_above_iff.mp fun dir hdir hnil hne => (hl.reached dir hdir hnil hne).1
    exact ⟨names, e, text, ⟨hl.below, hl.stands, hending, hreached, hl.small, hl.readable⟩, hlen, rfl⟩
  · rintro ⟨names, e, text, hs, hlen, rfl⟩
    have hreached := forall_above_iff.mpr hs.reached
    refine ⟨names, e, text, ?_, rfl⟩
    exact
      { below := hs.below
        stands := hs.stands
        file := hs.file hfs
        reached := fun dir hdir hnil hne => ⟨hreached dir hdir hnil hne, hallowed _⟩
        allowed := hallowed _
        wanted := (usualWanted_iff hs.below (hnames hs.stands)).mpr ⟨hlen, hs.ending⟩
        small := hs.small
        readable := hs.readable }

/-- A repository with a source file right below its top and one in a directory. -/
def twoDepths : Files :=
  ⟨[(["r"], .folder), (["r", "a.py"], .file [49] 0), (["r", "d"], .folder), (["r", "d", "b.py"], .file [50] 0)], ["r"]⟩

/-- The file in the directory is listed, and the one right below the top is not. -/
theorem usual_scan_twoDepths :
    ∃ infos, scan twoDepths ⟨"", []⟩ { wanted := usualWanted, unwanted := [], maxBytes := 100 } = .ok infos ∧
      Source twoDepths ["r"] 100 ["a.py"] (.file [49] 0) "1" ∧ (∀ info ∈ infos, info.path ≠ ⟨"", ["a.py"]⟩) ∧
      describe ["d", "b.py"] (.file [50] 0) "2" ∈ infos := by
  have hfs : twoDepths.WellFormed :=
    { toRooted := Files.Rooted.of_entries (by decide) (by decide)
      distinct := by decide
      ne_nil := by decide
      named := by decide }
  have hlinks : twoDepths.LinkFreeBelow ["r"] := by
    intro names target hlink
    have hmem := Files.mem_of_entry?_eq_some (by simp) hlink
    simp [twoDepths] at hmem
  have hroot : twoDepths.resolve ⟨"", []⟩ = .ok ["r"] := by cbv
  obtain ⟨infos, hscan, hmem⟩ := usual_scan_leaves_out_top hfs hroot hlinks (by decide) 100
  refine ⟨infos, hscan, ⟨by simp, by decide, ⟨".py", by decide, by decide⟩, by decide, by decide, by cbv⟩, ?_, ?_⟩
  · intro info hinfo hpath
    obtain ⟨names, e, text, -, hlen, rfl⟩ := (hmem info).mp hinfo
    obtain rfl : names = ["a.py"] := by simpa [describe] using hpath
    simp at hlen
  · refine (hmem _).mpr ⟨["d", "b.py"], .file [50] 0, "2", ?_, by simp, rfl⟩
    exact ⟨by simp, by decide, ⟨".py", by decide, by decide⟩, by decide, by decide, by cbv⟩

/-! ## Unwanted files -/

/-- The directories whose contents are usually unwanted. -/
def usualFolders : List String := [".git", ".venv", "venv", "__pycache__", "node_modules"]

/-- The rules of the patterns that are usually unwanted. -/
def usualRules : List Ignore.Rule :=
  topFolderRule ".git" :: usualFolders.map folderRule

lemma usualUnwanted_eq : usualUnwanted = (".git" ++ "/**") :: usualFolders.map fun name => "**/" ++ name ++ "/**" := by
  decide

/-- The names of these directories are closed, and their characters stand for themselves. -/
lemma of_mem_usualFolders {name : String} (h : name ∈ usualFolders) :
    name ∈ closedFolders ∧ '/' ∉ name.toList ∧ (∀ c ∈ name.toList, Shell.Plain c) ∧ ∀ c ∈ name.toList, Literal c := by
  simp only [usualFolders, mem_cons, not_mem_nil, or_false] at h
  rcases h with rfl | rfl | rfl | rfl | rfl <;> simp [closedFolders, Shell.Plain, Literal]

/-- The patterns that are usually unwanted are well-formed rules. -/
lemma parse?_usualUnwanted : Ignore.parse? usualUnwanted = some usualRules := by
  have hstrip : ∀ name ∈ usualFolders, stripLine ("**/" ++ name ++ "/**") = "**/" ++ name ++ "/**" := by
    decide +kernel
  have hfolders : Ignore.parse? (usualFolders.map fun name => "**/" ++ name ++ "/**") =
      some (usualFolders.map folderRule) := by
    refine parse?_map fun name hname => ?_
    obtain ⟨-, hslash, -, hliteral⟩ := of_mem_usualFolders hname
    exact ruleOf?_folder hliteral hslash (hstrip name hname)
  have htop : ruleOf? (".git" ++ "/**") = some [topFolderRule ".git"] := by
    obtain ⟨-, hslash, -, hliteral⟩ := of_mem_usualFolders (show ".git" ∈ usualFolders by decide)
    exact ruleOf?_top_folder hliteral hslash (by decide +kernel) (by simp) (by decide)
  rw [usualUnwanted_eq, parse?_cons htop, hfolders]
  rfl

section Reached

variable {names : List String} (hne : names ≠ []) (h : ∀ name ∈ names, Path.IsName name)
  (hopen : ∀ dir ∈ names.dropLast, dir ∉ closedFolders)

include hne h hopen

/-- No directory whose contents are usually unwanted stands between slashes in the path of a file that is reached. -/
lemma not_between {name : String} (hname : name ∈ usualFolders) {front back : List Char}
    (hfront : front = [] ∨ ∃ above, front = above ++ ['/']) :
    (Path.toString ⟨"", names⟩).toList ≠ front ++ (name.toList ++ '/' :: back) := by
  intro htext
  obtain ⟨hclosed, hslash, -⟩ := of_mem_usualFolders hname
  exact hopen name (Path.mem_dropLast_of_between hne (fun n hn => (h n hn).no_slash) hslash htext hfront) hclosed

lemma fitsAny_usualUnwanted : Shell.fitsAny usualUnwanted (Path.toString ⟨"", names⟩) = false := by
  rw [Bool.eq_false_iff, Shell.fitsAny, usualUnwanted_eq]
  intro hfits
  obtain ⟨pattern, hpattern, hfits⟩ := any_eq_true.mp hfits
  rcases mem_cons.mp hpattern with rfl | hpattern
  · have hgit : ".git" ∈ usualFolders := by decide
    obtain ⟨back, htext⟩ := (Shell.fits_top_folder_iff (of_mem_usualFolders hgit).2.2.1).mp hfits
    exact not_between hne h hopen hgit (.inl rfl) htext
  · obtain ⟨name, hname, rfl⟩ := mem_map.mp hpattern
    obtain ⟨front, back, htext⟩ := (Shell.fits_folder_iff (of_mem_usualFolders hname).2.2.1).mp hfits
    rw [← singleton_append, ← append_assoc] at htext
    exact not_between hne h hopen hname (.inr ⟨front, rfl⟩) htext

lemma ignores_append_usualRules (rs : List Ignore.Rule) :
    ignores (rs ++ usualRules) (Path.toString ⟨"", names⟩) = ignores rs (Path.toString ⟨"", names⟩) := by
  refine ignores_append rs fun rule hrule hmatch => ?_
  rcases mem_cons.mp hrule with rfl | hrule
  · obtain ⟨back, htext⟩ := starts_of_topFolderRule hmatch
    rw [relative_toString hne h] at htext
    have hgit : ".git" ∈ usualFolders := by decide
    exact not_between hne h hopen hgit (.inl rfl) htext
  · obtain ⟨name, hname, rfl⟩ := mem_map.mp hrule
    obtain ⟨front, back, htext, hfront⟩ := between_of_folderRule hmatch
    rw [relative_toString hne h] at htext
    exact not_between hne h hopen hname hfront htext

/-- **Behind open directories the usual patterns leave out nothing**, neither as patterns nor as rules. -/
lemma isUnwanted_usual {options options' : Options} (hnone : options.unwanted = [])
    (husual : options'.unwanted = usualUnwanted) (hignore : options'.ignoreRules = options.ignoreRules) (fs : Files)
    (root : Path) :
    isUnwanted (rules fs root options') options' ⟨"", names⟩ =
      isUnwanted (rules fs root options) options ⟨"", names⟩ := by
  have hrules : ignores (rules fs root options') (Path.toString ⟨"", names⟩) =
      ignores (rules fs root options) (Path.toString ⟨"", names⟩) := by
    rw [rules, rules, hignore, hnone, husual, append_nil, parse?_append _ parse?_usualUnwanted]
    split_ifs
    · cases Ignore.parse? (ignoreLines fs root) with
      | none => rfl
      | some rs => exact ignores_append_usualRules hne h hopen rs
    · rfl
  rw [isUnwanted, isUnwanted, hrules, husual, hnone, fitsAny_usualUnwanted hne h hopen]
  rfl

end Reached

end CodeAudit.Scan
