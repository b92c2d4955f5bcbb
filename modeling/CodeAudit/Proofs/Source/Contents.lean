import CodeAudit.Proofs.Files.Contents
import CodeAudit.Proofs.Source.Modules
import CodeAudit.Proofs.Source.Scan

/-!
# Scans and modules of trees that differ in one file

Apart from the ignore file of the repository, the contents of a file decide only whether that file itself is listed
and what its own module is. Everything that a scan lists of other files, and the modules of these files, are the same
in two trees that differ in the contents of one file.

## Main results

* `Scan.scan_twins` — scans of twins list the same of all other files.
* `Modules.filter_readAll_twins` — all other modules of twins are the same.
-/

namespace CodeAudit

open Files List Outcome Scan

namespace Scan

variable {fs gs : Files} {p top : Place} {options : Options}

variable {place : Place} {info : FileInfo} {bytes : List UInt8} {time : ℤ} {infos : List FileInfo}

variable {root : Path}

/-! ## Places and their paths -/

/-- A place can be told from its path. -/
lemma relativeTo_injective (top : Place) : Function.Injective (relativeTo top) := by
  intro q q' heq
  unfold relativeTo pathOf at heq
  split_ifs at heq with hq hq'
  · obtain ⟨rest, rfl⟩ := isPrefixOf_iff_prefix.mp hq
    obtain ⟨rest', rfl⟩ := isPrefixOf_iff_prefix.mp hq'
    simpa using heq
  · simp at heq
  · simp at heq
  · simpa using heq

/-- A path that is told from the top leads from there to its place. -/
lemma join_relativeTo (top q : Place) : (pathOf top).join (relativeTo top q) = pathOf q := by
  unfold relativeTo
  split_ifs with hq
  · obtain ⟨rest, rfl⟩ := isPrefixOf_iff_prefix.mp hq
    simp [Path.join, Path.isAbsolute, pathOf]
  · simp [Path.join, Path.isAbsolute, pathOf]

/-! ## What is listed of a file -/

/-- What is listed of a file, if it is listed, has the path of its place and the language of its ending, and can be
read. -/
lemma of_inspect? {rules : List Ignore.Rule} (h : inspect? fs top rules options place = .ok (some info)) :
    info.path = relativeTo top place ∧ info.language = Language.ofSuffix info.path ∧
      ∃ text, fs.readText (pathOf place) = .ok text := by
  unfold inspect? at h
  simp only at h
  split_ifs at h with hout
  · cases h
  · split at h
    · cases h
    · cases h
    · split_ifs at h with hlarge
      · cases h
      · split at h
        · rename_i text htext
          obtain rfl := Option.some.inj (Except.ok.inj h)
          refine ⟨?_, ?_, text, htext⟩ <;> dsimp only
        · cases h

lemma path_of_inspect? {rules : List Ignore.Rule}
    (h : inspect? fs top rules options place = .ok (some info)) : info.path = relativeTo top place :=
  (of_inspect? h).1

/-- Whether a file is listed depends on its path and its size only. -/
lemma inspect?_of_file (top : Place) (rules : List Ignore.Rule) (options : Options)
    (h : fs.find (Files.pathOf place) = .ok (place, .file bytes time)) :
    ∃ o, inspect? fs top rules options place = .ok o ∧
      (o.isSome ↔ isUnwanted rules options (relativeTo top place) = false ∧
        Shell.fitsAny options.wanted (relativeTo top place).toString = true ∧ (bytes.length : ℤ) ≤ options.maxBytes) := by
  unfold inspect?
  simp only [h, Files.readText_of_find h]
  split_ifs with hout hlarge
  · refine ⟨none, rfl, ?_⟩
    simp only [Bool.or_eq_true, Bool.not_eq_true'] at hout
    rcases hout with hout | hout <;> simp [hout]
  · exact ⟨none, rfl, by simpa [Files.sizeOf] using fun _ _ => hlarge⟩
  · simp only [Bool.or_eq_true, Bool.not_eq_true', not_or, Bool.not_eq_true, Bool.not_eq_false] at hout
    exact ⟨_, rfl, by simpa [hout, Files.sizeOf] using hlarge⟩

/-- **What a scan lists**, on any tree. -/
lemma mem_scan_iff (hroot : fs.resolve root = .ok top)
    (h : scan fs root options = .ok infos) (info : FileInfo) :
    info ∈ infos ↔ ∃ x ∈ met fs top options, ∃ place, fs.resolve (Files.extend x.1 x.2) = .ok place ∧
      inspect? fs top (rules fs (pathOf top) options) options place = .ok (some info) := by
  rw [scan_eq options hroot] at h
  obtain ⟨found, hfound, h⟩ := bind_eq_ok.mp h
  obtain rfl := Except.ok.inj h
  have hmem : ∀ o, o ∈ found ↔ ∃ x ∈ met fs top options, look? fs top options x = .ok o := by
    intro o
    constructor
    · exact fun ho => exists_of_mem_mapM hfound ho
    · rintro ⟨x, hx, ho⟩
      have hmap : look? fs top options x ∈ found.map Except.ok := by
        rw [← mapM_eq_ok_iff.mp hfound]
        exact mem_map_of_mem hx
      simpa [ho] using hmap
  rw [mem_mergeSort, mem_filterMap]
  simp only [id_eq, exists_eq_right, hmem, look?, bind_eq_ok]

section Below

variable (hfs : fs.WellFormed) (h : fs.LinkFreeBelow top) {root : Path} (hroot : fs.resolve root = .ok top)

include hfs h hroot

/-- Without links below the top, nothing makes a scan fail. -/
lemma exists_scan_below (options : Options) : ∃ infos, scan fs root options = .ok infos := by
  obtain ⟨found, hfound⟩ := exists_mapM fun x (hx : x ∈ met fs top options) => by
    obtain ⟨o, ho, -⟩ := look?_met_below hfs h (hfs.straight_resolve hroot) hx
    exact ⟨o, ho⟩
  rw [scan_eq options hroot, hfound]
  exact ⟨_, rfl⟩

/-- **Without links below the top, a scan lists the files that meet the condition.** -/
lemma mem_scan_below_iff (hscan : scan fs root options = .ok infos) (info : FileInfo) :
    info ∈ infos ↔ ∃ names e text, Listed fs top options names e text ∧ info = describe names e text := by
  have htop := hfs.straight_resolve hroot
  have hlook : info ∈ infos ↔ ∃ x ∈ met fs top options, look? fs top options x = .ok (some info) := by
    simp only [mem_scan_iff hroot hscan, look?, bind_eq_ok]
  rw [hlook]
  constructor
  · rintro ⟨x, hx, hinfo⟩
    obtain ⟨o, ho, hsome⟩ := look?_met_below hfs h htop hx
    obtain ⟨way, name, e, text, -, hlisted, rfl⟩ := (hsome info).mp (Except.ok.inj (ho.symm.trans hinfo))
    exact ⟨_, e, text, hlisted, rfl⟩
  · rintro ⟨names, e, text, hl, rfl⟩
    obtain rfl | ⟨way, name, rfl⟩ := eq_nil_or_concat' names
    · exact absurd rfl hl.below
    · have hx : (pathOf (top ++ way), name) ∈ met fs top options :=
        (mem_met_below_iff hfs h htop).mpr ⟨way, name, e, rfl, hl.stands, hl.file, hl.reached⟩
      obtain ⟨o, ho, hsome⟩ := look?_met_below hfs h htop hx
      exact ⟨_, hx, ho.trans (congrArg _ ((hsome _).mpr ⟨way, name, e, text, rfl, hl, rfl⟩))⟩

end Below

/-- A file that a scan lists has the language of its ending. -/
lemma language_of_mem_scan (hroot : fs.resolve root = .ok top)
    (h : scan fs root options = .ok infos) (hinfo : info ∈ infos) :
    info.language = Language.ofSuffix info.path := by
  obtain ⟨x, -, place, -, hinspect⟩ := (mem_scan_iff hroot h info).mp hinfo
  exact (of_inspect? hinspect).2.1

/-- A file that a scan lists stands at a place that is reached without links. -/
lemma exists_place_of_mem_scan (hfs : fs.WellFormed)
    (hroot : fs.resolve root = .ok top) (h : scan fs root options = .ok infos)
    (hinfo : info ∈ infos) : ∃ place, fs.Straight place ∧ info.path = relativeTo top place := by
  obtain ⟨x, -, place, hplace, hinspect⟩ := (mem_scan_iff hroot h info).mp hinfo
  exact ⟨place, hfs.straight_resolve hplace, path_of_inspect? hinspect⟩

/-- **When a file is listed.** -/
lemma exists_listed_iff (hroot : fs.resolve root = .ok top) (h : scan fs root options = .ok infos)
    (hfile : fs.find (pathOf p) = .ok (p, .file bytes time)) :
    relativeTo top p ∈ infos.map (·.path) ↔
      (∃ x ∈ met fs top options, fs.resolve (Files.extend x.1 x.2) = .ok p) ∧
        isUnwanted (rules fs (pathOf top) options) options (relativeTo top p) = false ∧
        Shell.fitsAny options.wanted (relativeTo top p).toString = true ∧ (bytes.length : ℤ) ≤ options.maxBytes := by
  obtain ⟨o, ho, hsome⟩ := inspect?_of_file top (rules fs (pathOf top) options) options hfile
  rw [← hsome, mem_map]
  constructor
  · rintro ⟨info, hinfo, hpath⟩
    obtain ⟨x, hx, place, hplace, hinspect⟩ := (mem_scan_iff hroot h info).mp hinfo
    obtain rfl : place = p := relativeTo_injective top ((path_of_inspect? hinspect).symm.trans hpath)
    rw [ho] at hinspect
    exact ⟨⟨x, hx, hplace⟩, by rw [Except.ok.inj hinspect]; rfl⟩
  · rintro ⟨⟨x, hx, hplace⟩, hlisted⟩
    obtain ⟨info, rfl⟩ := Option.isSome_iff_exists.mp hlisted
    exact ⟨info, (mem_scan_iff hroot h info).mpr ⟨x, hx, p, hplace, ho⟩, path_of_inspect? ho⟩

/-! ## Twins -/

section Twins

variable (h : Files.Twins p fs gs)

include h

/-- Twins have the same ignore rules, unless they differ in the ignore file. -/
lemma rules_eq (hignore : fs.follow (Files.extend (pathOf top) ".gitignore") ≠ .ok p) :
    rules gs (pathOf top) options = rules fs (pathOf top) options := by
  rw [rules, rules, ignoreLines, ignoreLines, h.readText_eq hignore]

/-- Scans of twins meet the same files. -/
lemma met_eq (hignore : fs.follow (Files.extend (pathOf top) ".gitignore") ≠ .ok p) :
    met gs top options = met fs top options := by
  have hknown : knownAs gs top = knownAs fs top := by
    funext dir
    rw [knownAs, knownAs, h.resolve_eq]
  rw [met, met, hknown, rules_eq h hignore, h.depthLimit_eq, h.visit_eq]

/-- The same is listed of a file in twins, unless it is the one in which they differ. -/
lemma inspect?_eq {rules : List Ignore.Rule} (hplace : fs.Straight place) (hne : place ≠ p) :
    inspect? gs top rules options place = inspect? fs top rules options place := by
  have hfollow : fs.follow (pathOf place) ≠ .ok p := fun hp => hne (hplace.eq_of_follow_pathOf hp).symm
  rcases h.find_cases (pathOf place) with hfind | ⟨hp, -⟩
  · simp only [inspect?, hfind, h.readText_eq hfollow]
  · exact absurd hp hfollow

variable (hfs : fs.WellFormed) (hignore : fs.follow (Files.extend (pathOf top) ".gitignore") ≠ .ok p)

include hfs hignore

/-- A file that is met is looked at alike in twins, or it is the one in which they differ. -/
lemma look?_cases (options : Options) (x : Path × String) :
    look? gs top options x = look? fs top options x ∨
      ∃ o o', look? fs top options x = .ok o ∧ look? gs top options x = .ok o' ∧
        o'.toList.filter (·.path ≠ relativeTo top p) = o.toList.filter (·.path ≠ relativeTo top p) := by
  unfold look?
  rw [rules_eq h hignore, h.resolve_eq]
  cases hplace : fs.resolve (Files.extend x.1 x.2) with
  | error e => exact .inl rfl
  | ok place =>
    by_cases hne : place = p
    · right
      subst hne
      obtain ⟨bytes, bytes', time, hfile, hfile'⟩ := h.file
      obtain ⟨hfind, hfind'⟩ := h.find_pathOf hfs hfile hfile'
      -- whatever is listed of the file has its path
      have hnone : ∀ {hs : Files} {o : Option FileInfo},
          inspect? hs top (rules fs (pathOf top) options) options place = .ok o →
            o.toList.filter (·.path ≠ relativeTo top place) = [] := by
        intro hs o ho
        cases o with
        | none => rfl
        | some info => simp [path_of_inspect? ho]
      obtain ⟨o, ho, -⟩ := inspect?_of_file top (rules fs (pathOf top) options) options hfind
      obtain ⟨o', ho', -⟩ := inspect?_of_file top (rules fs (pathOf top) options) options hfind'
      exact ⟨o, o', ho, ho', (hnone ho').trans (hnone ho).symm⟩
    · exact .inl (inspect?_eq h (hfs.straight_resolve hplace) hne)

/-- **Scans of twins both fail, or list the same of all other files.** -/
lemma scan_twins {root : Path} (hroot : fs.resolve root = .ok top) :
    (∃ e, scan fs root options = .error e ∧ scan gs root options = .error e) ∨
      ∃ infos infos', scan fs root options = .ok infos ∧ scan gs root options = .ok infos' ∧
        infos'.filter (·.path ≠ relativeTo top p) = infos.filter (·.path ≠ relativeTo top p) := by
  rw [scan_eq options hroot, scan_eq options ((h.resolve_eq root).trans hroot), met_eq h hignore]
  rcases mapM_cases_of_agree (fun o : Option FileInfo => o.toList.filter (·.path ≠ relativeTo top p))
    (fun x (_ : x ∈ met fs top options) => look?_cases h hfs hignore options x)
    with ⟨e, hf, hg⟩ | ⟨ys, zs, hf, hg, hkept⟩
  · exact .inl ⟨e, by rw [hf]; rfl, by rw [hg]; rfl⟩
  · refine .inr ⟨_, _, by rw [hf]; rfl, by rw [hg]; rfl, ?_⟩
    have hsort : ∀ infos : List FileInfo,
        (infos.mergeSort fun a b => !(b.path.toString < a.path.toString)).filter (·.path ≠ relativeTo top p) =
          (infos.filter (·.path ≠ relativeTo top p)).mergeSort fun a b => !(b.path.toString < a.path.toString) := by
      intro infos
      refine Sequence.filter_mergeSort (fun a b c hab hbc => ?_) (fun a b => ?_) _ _
      · simp only [Bool.not_eq_true', decide_eq_false_iff_not, not_lt] at hab hbc ⊢
        exact hab.trans hbc
      · simp only [Bool.or_eq_true, Bool.not_eq_true', decide_eq_false_iff_not, not_lt]
        exact le_total _ _
    rw [hsort, hsort, Sequence.filter_filterMap_id, Sequence.filter_filterMap_id, hkept]

end Twins

end Scan

/-! ## Modules -/

namespace Modules

variable {fs gs : Files} {p top : Place}

variable {modules : List ModuleUnit}

/-- The text of any other file is the same in twins. -/
lemma sourceText_eq (h : Files.Twins p fs gs) {place : Place} (hplace : fs.Straight place) (hne : place ≠ p) :
    sourceText gs (pathOf top) (relativeTo top place) =
      sourceText fs (pathOf top) (relativeTo top place) := by
  rw [sourceText, sourceText, join_relativeTo, h.readText_eq]
  exact fun hp => hne (hplace.eq_of_follow_pathOf hp).symm

/-- The modules of some of the files that are read. -/
lemma readAll_filter {root : Path} {paths : List Path} (keep : Path → Bool)
    (h : readAll fs root paths = .ok modules) :
    readAll fs root (paths.filter keep) = .ok (modules.filter (keep ·.path)) := by
  have hkeep : ∀ path ∈ paths, keep path = (readModule fs root path).toOption.any (keep ·.path) := by
    intro path hpath
    obtain ⟨m, -, hm⟩ := exists_mem_of_mapM h hpath
    simp [hm, Except.toOption, path_of_readModule hm]
  have hmap := congrArg (List.filter fun r => r.toOption.any (keep ·.path)) (mapM_eq_ok_iff.mp h)
  rw [filter_map, filter_map] at hmap
  rw [readAll, mapM_eq_ok_iff, filter_congr hkeep]
  simpa [Function.comp_def, Except.toOption] using hmap

/-- **All other modules of twins are the same.** -/
lemma filter_readAll_twins (h : Files.Twins p fs gs) {paths paths' : List Path} {modules' : List ModuleUnit}
    (hplaces : ∀ path ∈ paths, ∃ place, fs.Straight place ∧ path = relativeTo top place)
    (hsame : paths'.filter (· ≠ relativeTo top p) = paths.filter (· ≠ relativeTo top p))
    (hread : readAll fs (pathOf top) paths = .ok modules)
    (hread' : readAll gs (pathOf top) paths' = .ok modules') :
    modules'.filter (·.path ≠ relativeTo top p) = modules.filter (·.path ≠ relativeTo top p) := by
  have hkept := readAll_filter (· ≠ relativeTo top p) hread
  have hkept' := readAll_filter (· ≠ relativeTo top p) hread'
  rw [hsame] at hkept'
  have heq : readAll gs (pathOf top) (paths.filter (· ≠ relativeTo top p)) =
      readAll fs (pathOf top) (paths.filter (· ≠ relativeTo top p)) := by
    refine mapM_congr fun path hpath => ?_
    rw [mem_filter] at hpath
    obtain ⟨place, hplace, rfl⟩ := hplaces path hpath.1
    have hne : place ≠ p := by
      rintro rfl
      simp at hpath
    rw [readModule, readModule, sourceText_eq h hplace hne]
  rw [heq, hkept] at hkept'
  exact (Except.ok.inj hkept').symm

end Modules

end CodeAudit
