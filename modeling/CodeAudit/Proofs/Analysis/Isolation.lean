import CodeAudit.Proofs.Analysis.Detect
import CodeAudit.Proofs.Source.Rescan

/-!
# What one file can do to an analysis

The contents of one file reach an analysis in several places: the scan, the module of the file and each of the
detectors. This module compares the analysis of a repository with that of the same repository in which one file is
empty. A script that is no program makes the whole analysis fail. Any other contents leave what is found in the
other files as it is.

## Main definitions

* `Analysis.Breaks` — a listed script that is no program.
* `Analysis.elsewhere` — the findings on all files but one.

## Main results

* `Analysis.exists_run_iff_of_twins` — an analysis survives the contents of a file exactly if that file does
  not break it.
* `Analysis.run_isolates_unless_broken` — what one file can do to an analysis.
-/

namespace CodeAudit.Analysis

open Files Modules Scan Testing

variable {path : Path} {bytes : List UInt8} {time : ℤ}

/-- **A tree without links can be scanned.** -/
lemma exists_files_of_linkFree {fs : Files} (hfs : fs.WellFormed) (hlinks : fs.LinkFree) {request : Request}
    (husable : request.Usable) {root : Path} {top : Place} (htop : fs.resolve root = .ok top) :
    ∃ infos, files fs (pathOf top) request = .ok infos := by
  obtain ⟨maxBytes, -, hfiles⟩ := husable.files_eq
  rw [hfiles]
  exact exists_scan_below hfs (hlinks.below top) (hfs.straight_resolve htop).resolve_pathOf _

/-- **A file breaks an analysis**: it is listed and read as a script, and it is no program. -/
def Breaks (fs : Files) (top : Place) (request : Request) (p : Place) : Prop :=
  ∃ infos, files fs (pathOf top) request = .ok infos ∧ relativeTo top p ∈ infos.map (·.path) ∧
    IsMalformed fs (pathOf top) (relativeTo top p)

/-- The findings on all files but one. -/
def elsewhere {α : Type} (file : String) (fileOf : α → String) (findings : List α) : List α :=
  findings.filter (fileOf · ≠ file)

variable {fs gs : Files} {root : Path} {request : Request} {top p : Place}

/-! ## The files that are listed -/

/-- A listed file stands at a place that is reached without links. -/
lemma exists_place_of_mem_files (hfs : fs.WellFormed) (husable : request.Usable) (htop : fs.resolve root = .ok top)
    {infos : List FileInfo} (hinfos : files fs (pathOf top) request = .ok infos)
    (hpath : path ∈ infos.map (·.path)) : ∃ place, fs.Straight place ∧ path = relativeTo top place := by
  obtain ⟨maxBytes, -, hfiles⟩ := husable.files_eq
  rw [hfiles] at hinfos
  obtain ⟨info, hinfo, rfl⟩ := List.mem_map.mp hpath
  exact exists_place_of_mem_scan hfs (hfs.straight_resolve htop).resolve_pathOf hinfos hinfo

section Twins

variable (h : Twins p fs gs) (hfs : fs.WellFormed) (husable : request.Usable)
  (htop : fs.resolve root = .ok top)
  (hignore : fs.follow (extend (pathOf top) ".gitignore") ≠ .ok p)

variable {infos : List FileInfo}

include h hfs husable htop hignore

/-- Twins both cannot be scanned, or the same other files are listed. -/
lemma files_twins :
    (∃ e, files fs (pathOf top) request = .error e ∧ files gs (pathOf top) request = .error e) ∨
      ∃ infos infos', files fs (pathOf top) request = .ok infos ∧
        files gs (pathOf top) request = .ok infos' ∧
        (infos'.map (·.path)).filter (· ≠ relativeTo top p) =
          (infos.map (·.path)).filter (· ≠ relativeTo top p) := by
  obtain ⟨maxBytes, -, hfiles⟩ := husable.files_eq
  simp only [hfiles]
  rcases scan_twins h hfs hignore (hfs.straight_resolve htop).resolve_pathOf with
    hfails | ⟨infos, infos', hinfos, hinfos', hsame⟩
  · exact .inl hfails
  · refine .inr ⟨infos, infos', hinfos, hinfos', ?_⟩
    rw [List.filter_map, List.filter_map]
    exact congrArg _ hsame

/-- A file is listed in both of two twins if it is small enough in both. -/
lemma mem_files_iff_of_twins {infos' : List FileInfo} {bytes' : List UInt8} {time' : ℤ}
    (hinfos : files fs (pathOf top) request = .ok infos)
    (hinfos' : files gs (pathOf top) request = .ok infos')
    (hfile : fs.entry? p = some (.file bytes time)) (hfile' : gs.entry? p = some (.file bytes' time'))
    (hsmall : ∀ maxBytes, (request.maxBytes.orElse (.int usualMaxBytes)).toInt = .ok maxBytes →
      ((bytes.length : ℤ) ≤ maxBytes ↔ (bytes'.length : ℤ) ≤ maxBytes)) :
    relativeTo top p ∈ infos.map (·.path) ↔ relativeTo top p ∈ infos'.map (·.path) := by
  obtain ⟨maxBytes, hmaxBytes, hfiles⟩ := husable.files_eq
  rw [hfiles] at hinfos hinfos'
  have hroot := (hfs.straight_resolve htop).resolve_pathOf
  obtain ⟨hfind, hfind'⟩ := h.find_pathOf hfs hfile hfile'
  rw [exists_listed_iff hroot hinfos hfind,
    exists_listed_iff ((h.resolve_eq _).trans hroot) hinfos' hfind', met_eq h hignore,
    rules_eq h hignore, hsmall maxBytes hmaxBytes]
  simp only [h.resolve_eq]

omit hignore in
/-- Any other listed script is malformed in both of two twins or in none. -/
lemma isMalformed_iff_of_twins (hinfos : files fs (pathOf top) request = .ok infos)
    (hpath : path ∈ infos.map (·.path)) (hne : path ≠ relativeTo top p) :
    IsMalformed gs (pathOf top) path ↔ IsMalformed fs (pathOf top) path := by
  obtain ⟨place, hplace, rfl⟩ := exists_place_of_mem_files hfs husable htop hinfos hpath
  rw [IsMalformed, IsMalformed, sourceText_eq h hplace fun heq => hne (heq ▸ rfl)]

/-- **An analysis survives the contents of a file exactly if that file does not break it.** -/
lemma exists_run_iff_of_twins (hintact : ¬ Breaks gs top request p) :
    (∃ analysis, run fs root request = .ok analysis) ↔
      (∃ analysis, run gs root request = .ok analysis) ∧ ¬ Breaks fs top request p := by
  rw [exists_run_iff husable htop, exists_run_iff husable ((h.resolve_eq root).trans htop)]
  rcases files_twins h hfs husable htop hignore with ⟨e, hf, hg⟩ | ⟨infos, infos', hinfos, hinfos', hsame⟩
  · refine iff_of_false ?_ ?_
    · rintro ⟨infos, hinfos, -⟩
      rw [hf] at hinfos
      cases hinfos
    · rintro ⟨⟨infos', hinfos', -⟩, -⟩
      rw [hg] at hinfos'
      cases hinfos'
  -- the other files are listed in both, and malformed in both or in none
  have hmem : ∀ path, path ≠ relativeTo top p → (path ∈ infos'.map (·.path) ↔ path ∈ infos.map (·.path)) := by
    intro path hne
    have hiff : path ∈ (infos'.map (·.path)).filter (· ≠ relativeTo top p) ↔
        path ∈ (infos.map (·.path)).filter (· ≠ relativeTo top p) := by rw [hsame]
    simpa [-List.mem_map, hne] using hiff
  constructor
  · rintro ⟨infos₀, hinfos₀, hprograms⟩
    obtain rfl := Except.ok.inj (hinfos.symm.trans hinfos₀)
    refine ⟨⟨infos', hinfos', fun path hpath hbad => ?_⟩, ?_⟩
    · by_cases hne : path = relativeTo top p
      · exact hintact ⟨infos', hinfos', hne ▸ hpath, hne ▸ hbad⟩
      · have hlisted := (hmem path hne).mp hpath
        exact hprograms path hlisted ((isMalformed_iff_of_twins h hfs husable htop hinfos hlisted hne).mp hbad)
    · rintro ⟨infos₁, hinfos₁, hlisted, hbad⟩
      obtain rfl := Except.ok.inj (hinfos.symm.trans hinfos₁)
      exact hprograms _ hlisted hbad
  · rintro ⟨⟨infos₀, hinfos₀, hprograms⟩, hwhole⟩
    obtain rfl := Except.ok.inj (hinfos'.symm.trans hinfos₀)
    refine ⟨infos, hinfos, fun path hpath hbad => ?_⟩
    by_cases hne : path = relativeTo top p
    · exact hwhole ⟨infos, hinfos, hne ▸ hpath, hne ▸ hbad⟩
    · exact hprograms path ((hmem path hne).mpr hpath)
        ((isMalformed_iff_of_twins h hfs husable htop hinfos hpath hne).mpr hbad)

end Twins

/-- A file that breaks an analysis makes it fail. -/
lemma run_eq_error_of_breaks (husable : request.Usable) (htop : fs.resolve root = .ok top)
    (hbreaks : Breaks fs top request p) : ∃ fault, run fs root request = .error (.malformedSource fault) := by
  obtain ⟨infos, hinfos, hlisted, hbad⟩ := hbreaks
  rcases run_cases husable htop hinfos with ⟨modules, -, hmodules, -⟩ | ⟨e, herror, hrun⟩
  · exact absurd hbad (exists_readAll_iff.mp ⟨modules, hmodules⟩ _ hlisted)
  · obtain ⟨fault, rfl⟩ := of_readAll_eq_error herror
    exact ⟨fault, hrun⟩

/-- **An analysis succeeds exactly if the repository can be scanned and no file breaks it.** -/
lemma exists_run_iff_not_breaks (hfs : fs.WellFormed) (husable : request.Usable) (htop : fs.resolve root = .ok top) :
    (∃ analysis, run fs root request = .ok analysis) ↔
      (∃ infos, files fs (pathOf top) request = .ok infos) ∧ ∀ p, ¬ Breaks fs top request p := by
  rw [exists_run_iff husable htop]
  constructor
  · rintro ⟨infos, hinfos, hprograms⟩
    refine ⟨⟨infos, hinfos⟩, ?_⟩
    rintro p ⟨infos₀, hinfos₀, hlisted, hbad⟩
    obtain rfl := Except.ok.inj (hinfos.symm.trans hinfos₀)
    exact hprograms _ hlisted hbad
  · rintro ⟨⟨infos, hinfos⟩, hwhole⟩
    refine ⟨infos, hinfos, fun path hpath hbad => ?_⟩
    obtain ⟨place, -, heq⟩ := exists_place_of_mem_files hfs husable htop hinfos hpath
    exact hwhole place ⟨infos, hinfos, heq ▸ hpath, heq ▸ hbad⟩

/-! ## What is found in the other files -/

section Findings

variable {a b : Analysis} {infos infos' : List FileInfo}

variable (h : Twins p fs gs) (hfs : fs.WellFormed) (husable : request.Usable)
  (hignore : fs.follow (extend (pathOf top) ".gitignore") ≠ .ok p)
  (ha : Stages fs root request a top infos) (hb : Stages gs root request b top infos')

include h hfs husable hignore ha hb

/-- All other modules are the same. -/
lemma filter_modules_twins :
    b.modules.filter (·.path ≠ relativeTo top p) = a.modules.filter (·.path ≠ relativeTo top p) := by
  rcases files_twins h hfs husable ha.resolved hignore with ⟨e, hf, -⟩ | ⟨infos₀, infos₁, hinfos, hinfos', hsame⟩
  · rw [ha.scanned] at hf
    cases hf
  · obtain rfl := Except.ok.inj (ha.scanned.symm.trans hinfos)
    obtain rfl := Except.ok.inj (hb.scanned.symm.trans hinfos')
    exact filter_readAll_twins h
      (fun path hpath => exists_place_of_mem_files hfs husable ha.resolved hinfos hpath) hsame ha.read hb.read

omit hignore hb in
/-- The text of any other module is the same. -/
lemma sourceText_eq_of_mem {m : ModuleUnit} (hm : m ∈ a.modules) (hne : m.path ≠ relativeTo top p) :
    sourceText gs (pathOf top) m.path = sourceText fs (pathOf top) m.path := by
  have hpath : m.path ∈ infos.map (·.path) := by
    rw [← map_path_of_readAll ha.read]
    exact List.mem_map_of_mem hm
  obtain ⟨place, hplace, heq⟩ := exists_place_of_mem_files hfs husable ha.resolved ha.scanned hpath
  rw [heq]
  exact sourceText_eq h hplace fun hp => hne (heq.trans (hp ▸ rfl))

/-- What is found module by module is the same in the other files if it is the same for the other modules. -/
lemma elsewhere_flatMap_twins {α : Type} {fileOf : α → String} {found found' : ModuleUnit → List α}
    (hfile : ∀ m, ∀ f ∈ found m, fileOf f = m.path.toString) (hfile' : ∀ m, ∀ f ∈ found' m, fileOf f = m.path.toString)
    (hsame : ∀ m ∈ a.modules, m.path ≠ relativeTo top p → found' m = found m) :
    elsewhere (relativeTo top p).toString fileOf (b.modules.flatMap found') =
      elsewhere (relativeTo top p).toString fileOf (a.modules.flatMap found) := by
  have hdropped : ∀ found : ModuleUnit → List α, (∀ m, ∀ f ∈ found m, fileOf f = m.path.toString) →
      ∀ modules : List ModuleUnit, ∀ m ∈ modules, decide (m.path ≠ relativeTo top p) = false → ∀ f ∈ found m,
        decide (fileOf f ≠ (relativeTo top p).toString) = false := by
    intro found hfile modules m _ hm f hf
    have hpath : m.path = relativeTo top p := by simpa using hm
    simp [hfile m f hf, hpath]
  have hkept : ∀ m ∈ a.modules.filter (·.path ≠ relativeTo top p), found' m = found m := by
    intro m hm
    rw [List.mem_filter, decide_eq_true_eq] at hm
    exact hsame m hm.1 hm.2
  unfold elsewhere
  rw [Sequence.filter_flatMap_filter (hdropped found' hfile' b.modules),
    Sequence.filter_flatMap_filter (hdropped found hfile a.modules), filter_modules_twins h hfs husable hignore ha hb,
    List.flatMap_congr hkept]

/-- **The hazards in the other files are the same.** -/
lemma security_twins :
    elsewhere (relativeTo top p).toString (·.file) b.findings.security =
      elsewhere (relativeTo top p).toString (·.file) a.findings.security := by
  obtain ⟨-, -, hsecurity, -⟩ := of_detect ha.detected
  obtain ⟨-, -, hsecurity', -⟩ := of_detect hb.detected
  rw [hsecurity, hsecurity']
  exact elsewhere_flatMap_twins h hfs husable hignore ha hb (fun m f => file_of_mem_hazardsOf)
    (fun m f => file_of_mem_hazardsOf) fun m hm hne => hazardsOf_congr (sourceText_eq_of_mem h hfs husable ha hm hne)

/-- **The complex functions in the other files are the same**, if the complexities in both versions of the file can
be told. -/
lemma complexity_twins
    (hcount : ∀ m ∈ a.modules, m.path = relativeTo top p → ∀ fn ∈ m.functions, ∃ v, Complexity.complexity fn = .ok v)
    (hcount' : ∀ m ∈ b.modules, m.path = relativeTo top p → ∀ fn ∈ m.functions, ∃ v, Complexity.complexity fn = .ok v)
    :
    elsewhere (relativeTo top p).toString (·.file) b.findings.complexity =
      elsewhere (relativeTo top p).toString (·.file) a.findings.complexity := by
  obtain ⟨warnAt, hwarnAt, -, hcomplexity, -⟩ := of_detect ha.detected
  obtain ⟨warnAt', hwarnAt', -, hcomplexity', -⟩ := of_detect hb.detected
  obtain rfl : warnAt = warnAt' := Except.ok.inj (hwarnAt.symm.trans hwarnAt')
  rw [hcomplexity, hcomplexity']
  rcases Complexity.inspect_cases warnAt with hsuits | hnot
  · have hdropped : ∀ fn : FunctionUnit, decide (fn.path ≠ relativeTo top p) = false → ∀ found,
        Complexity.inspect warnAt fn = .ok (some found) →
          decide (found.file ≠ (relativeTo top p).toString) = false := by
      intro fn hfn found hfound
      have hpath : fn.path = relativeTo top p := by simpa using hfn
      simp [(of_inspect hfound).2.2.1, hpath]
    refine (filter_orNothing_mapM (fun fn => decide (fn.path ≠ relativeTo top p)) ?_ (fun _ _ _ => rfl) ?_
      (fun fn _ => hdropped fn) (fun fn _ => hdropped fn)).2
    · rw [Complexity.filter_functions hb.read (· ≠ relativeTo top p),
        Complexity.filter_functions ha.read (· ≠ relativeTo top p),
        filter_modules_twins h hfs husable hignore ha hb]
    · simpa [-List.mem_flatMap] using iff_of_false (Complexity.not_exists_error ha.read hsuits hcount)
        (Complexity.not_exists_error hb.read hsuits hcount')
  · rw [Complexity.orNothing_detect_eq_nil fun fn hfn => hnot fn (Complexity.bounded_of_mem ha.read hfn),
      Complexity.orNothing_detect_eq_nil fun fn hfn => hnot fn (Complexity.bounded_of_mem hb.read hfn)]

/-- What is told of the documentation of the other modules is the same. -/
lemma moduleDocumentation_twins :
    elsewhere (relativeTo top p).toString (·.file)
        (b.modules.flatMap fun m => moduleDocumentation gs (pathOf top) m.path m.lang) =
      elsewhere (relativeTo top p).toString (·.file)
        (a.modules.flatMap fun m => moduleDocumentation fs (pathOf top) m.path m.lang) := by
  refine elsewhere_flatMap_twins h hfs husable hignore ha hb (fun m f => file_of_mem_moduleDocumentation)
    (fun m f => file_of_mem_moduleDocumentation) fun m hm hne => ?_
  have htext := sourceText_eq_of_mem h hfs husable ha hm hne
  unfold sourceText at htext
  rw [moduleDocumentation, moduleDocumentation, htext]

/-- **Missing documentation and missing tests of the other files are the same**, if the file is listed in both
repositories or can be asked for its tests. -/
lemma documentation_testing_twins (hlisted : (∃ e, inspect fs (pathOf top) (relativeTo top p) = .error e) →
      (relativeTo top p ∈ infos.map (·.path) ↔ relativeTo top p ∈ infos'.map (·.path))) :
    elsewhere (relativeTo top p).toString (·.file) b.findings.documentation =
        elsewhere (relativeTo top p).toString (·.file) a.findings.documentation ∧
      elsewhere (relativeTo top p).toString (·.file) b.findings.testing =
        elsewhere (relativeTo top p).toString (·.file) a.findings.testing := by
  obtain ⟨-, -, -, -, -, htold⟩ := of_detect ha.detected
  obtain ⟨-, -, -, -, -, htold'⟩ := of_detect hb.detected
  rw [inspectModules_eq] at htold htold'
  have hasked : ∀ source, inspect gs (pathOf top) source = inspect fs (pathOf top) source :=
    inspect_eq_of_exists? h.exists?_eq (pathOf top)
  have hscripts : (scripts b.modules).filter (· ≠ relativeTo top p) =
      (scripts a.modules).filter (· ≠ relativeTo top p) := by
    rw [filter_scripts, filter_scripts, filter_modules_twins h hfs husable hignore ha hb]
  have hdropped : ∀ source : Path, decide (source ≠ relativeTo top p) = false → ∀ gap,
      inspect fs (pathOf top) source = .ok (some gap) →
        decide (gap.file ≠ (relativeTo top p).toString) = false := by
    intro source hsource gap hgap
    have hpath : source = relativeTo top p := by simpa using hsource
    simp [file_of_inspect hgap, hpath]
  -- the file itself makes both rows of questions fail, or none
  have hfails : (∃ source ∈ scripts a.modules, decide (source ≠ relativeTo top p) = false ∧
        ∃ e, inspect fs (pathOf top) source = .error e) ↔
      ∃ source ∈ scripts b.modules, decide (source ≠ relativeTo top p) = false ∧
        ∃ e, inspect gs (pathOf top) source = .error e := by
    simp only [mem_scripts_iff ha.read, mem_scripts_iff hb.read, hasked, ne_eq, decide_not,
      Bool.not_eq_false', decide_eq_true_eq]
    constructor
    · rintro ⟨source, ⟨hmem, hscript⟩, rfl, hfails⟩
      exact ⟨_, ⟨(hlisted hfails).mp hmem, hscript⟩, rfl, hfails⟩
    · rintro ⟨source, ⟨hmem, hscript⟩, rfl, hfails⟩
      exact ⟨_, ⟨(hlisted hfails).mpr hmem, hscript⟩, rfl, hfails⟩
  obtain ⟨hboth, htesting⟩ := filter_orNothing_mapM (fun source => decide (source ≠ relativeTo top p)) hscripts
    (fun source _ _ => hasked source) hfails (fun source _ => hdropped source)
    (fun source _ hsource gap hgap => hdropped source hsource gap ((hasked source).symm.trans hgap))
  cases hf : (scripts a.modules).mapM (inspect fs (pathOf top)) with
  | error e =>
    obtain ⟨e', hg⟩ := hboth.mp ⟨e, hf⟩
    rw [hf, Prod.mk.injEq] at htold
    rw [hg, Prod.mk.injEq] at htold'
    rw [htold.1, htold.2, htold'.1, htold'.2]
    exact ⟨rfl, rfl⟩
  | ok gaps =>
    cases hg : (scripts b.modules).mapM (inspect gs (pathOf top)) with
    | error e' =>
      obtain ⟨e, he⟩ := hboth.mpr ⟨e', hg⟩
      rw [hf] at he
      cases he
    | ok gaps' =>
      rw [hf, Prod.mk.injEq] at htold
      rw [hg, Prod.mk.injEq] at htold'
      rw [hf, hg] at htesting
      rw [htold.1, htold.2, htold'.1, htold'.2]
      exact ⟨moduleDocumentation_twins h hfs husable hignore ha hb, htesting⟩

end Findings

/-! ## An empty file -/

/-- A file that has been emptied is empty. -/
lemma entry?_emptied (hfile : fs.entry? p = some (.file bytes time)) :
    entry? (fs.put p (.file [] time)) p = some (.file [] time) := by
  have hne : p ≠ [] := by
    rintro rfl
    simp at hfile
  rw [entry?_put fs hne, if_pos rfl]

/-- The module of an empty script has no functions. -/
lemma functions_of_empty {m : ModuleUnit} (hempty : sourceText fs root path = "")
    (h : readModule fs root path = .ok m) : m.functions = [] := by
  have hnone : ((Script.parse "").toOption.any fun tree => (tree.levelOrder.filter Script.Node.isFunction).isEmpty) =
    true := by decide +kernel
  rcases readModule_cases fs root path with ⟨-, lang, -, hok⟩ | ⟨-, tree, hparse, hok⟩ | ⟨fault, -, herror⟩
  · rw [← Except.ok.inj (hok.symm.trans h)]
  · rw [hempty] at hparse
    rw [hparse] at hnone
    rw [← Except.ok.inj (hok.symm.trans h)]
    simpa [Source.functionsOf, Except.toOption] using hnone
  · rw [herror] at h
    cases h

/-- An empty file does not break an analysis. -/
lemma not_breaks_of_empty (hempty : sourceText fs (pathOf top) (relativeTo top p) = "") :
    ¬ Breaks fs top request p := by
  rintro ⟨-, -, -, -, fault, hparse⟩
  rw [hempty] at hparse
  have hprogram : (Script.parse "").toOption.isSome = true := by decide +kernel
  rw [hparse] at hprogram
  cases hprogram

/-- The text of the file at a place, asked for by its path from the top. -/
lemma sourceText_of_find (top : Place) (h : fs.find (pathOf p) = .ok (p, .file bytes time)) :
    sourceText fs (pathOf top) (relativeTo top p) = textOf bytes := by
  rw [sourceText, join_relativeTo, readText_of_find h]
  rfl

/-- What is found in the other files is the same as if a file were empty.

**Proof sketch.** Paths, directories and visits do not depend on the contents of files, so both scans list the same
other files (`scan_twins`), and their modules are the same. Detectors that go through files or functions fail as
a whole if one step fails; by `filter_orNothing_mapM` it is enough that the file itself makes a step fail in both
repositories or in none. -/
lemma findings_twins_empty {a b : Analysis} (hfs : fs.WellFormed)
    (husable : request.Usable) (htop : fs.resolve root = .ok top) (hfile : fs.entry? p = some (.file bytes time))
    (hignore : fs.follow (extend (pathOf top) ".gitignore") ≠ .ok p) (hrun : run fs root request = .ok a)
    (hrun' : run (fs.put p (.file [] time)) root request = .ok b) :
    elsewhere (relativeTo top p).toString (·.file) b.findings.security =
        elsewhere (relativeTo top p).toString (·.file) a.findings.security ∧
      ((∀ tree, Script.parse (textOf bytes) = .ok tree → ∀ node ∈ tree.levelOrder,
          Source.branches node ≤ Number.greatest) →
        elsewhere (relativeTo top p).toString (·.file) b.findings.complexity =
          elsewhere (relativeTo top p).toString (·.file) a.findings.complexity) ∧
      ((∃ maxBytes, (request.maxBytes.orElse (.int usualMaxBytes)).toInt = .ok maxBytes ∧
            (bytes.length : ℤ) ≤ maxBytes) ∨
          (∃ gap, inspect fs (pathOf top) (relativeTo top p) = .ok gap) →
        elsewhere (relativeTo top p).toString (·.file) b.findings.documentation =
            elsewhere (relativeTo top p).toString (·.file) a.findings.documentation ∧
          elsewhere (relativeTo top p).toString (·.file) b.findings.testing =
            elsewhere (relativeTo top p).toString (·.file) a.findings.testing) := by
  have h := twins_put hfile []
  have hfile' := entry?_emptied hfile
  obtain ⟨hfind, hfind'⟩ := h.find_pathOf hfs hfile hfile'
  have htext := sourceText_of_find top hfind
  have hempty := sourceText_of_find top hfind'
  obtain ⟨top₀, infos, ha⟩ := stages_of_run hrun
  obtain rfl : top = top₀ := Except.ok.inj (htop.symm.trans ha.resolved)
  obtain ⟨top₁, infos', hb⟩ := stages_of_run hrun'
  obtain rfl : top = top₁ := Except.ok.inj ((((h.resolve_eq root).trans htop).symm).trans hb.resolved)
  refine ⟨security_twins h hfs husable hignore ha hb, fun hbranches => ?_, fun hasked => ?_⟩
  · refine complexity_twins h hfs husable hignore ha hb (fun m hm hpath fn hfn => ?_) (fun m hm hpath fn hfn => ?_)
    · obtain ⟨path, -, hmodule⟩ := Outcome.exists_of_mem_mapM ha.read hm
      obtain rfl : path = relativeTo top p := (path_of_readModule hmodule).symm.trans hpath
      obtain ⟨tree, node, hparse, hnode, rfl⟩ := of_mem_functions hmodule hfn
      rw [htext] at hparse
      have hle := hbranches tree hparse node hnode
      obtain ⟨n, hn⟩ := Datum.exists_floatToInt
        (Number.isFinite_ofInt (n := (Source.branches node : ℤ)) (by simpa using Nat.le_succ_of_le hle))
      exact ⟨1 + n, by rw [complexity_functionUnit, hn]; rfl⟩
    · obtain ⟨path, -, hmodule⟩ := Outcome.exists_of_mem_mapM hb.read hm
      obtain rfl : path = relativeTo top p := (path_of_readModule hmodule).symm.trans hpath
      rw [functions_of_empty hempty hmodule] at hfn
      cases hfn
  · refine documentation_testing_twins h hfs husable hignore ha hb ?_
    rintro ⟨e, he⟩
    rcases hasked with ⟨maxBytes, hmaxBytes, hsmall⟩ | ⟨gap, hgap⟩
    · refine mem_files_iff_of_twins h hfs husable htop hignore ha.scanned hb.scanned hfile hfile' ?_
      intro maxBytes' hmaxBytes'
      obtain rfl : maxBytes = maxBytes' := Except.ok.inj (hmaxBytes.symm.trans hmaxBytes')
      exact iff_of_true hsmall ((Int.natCast_nonneg _).trans hsmall)
    · rw [hgap] at he
      cases he

/-! ## What one file can do -/

/-- **What one file can do to an analysis.** An analysis succeeds exactly if the repository can be scanned, which it
can if it has no links, and no file breaks it: one listed script that is no program makes the whole analysis fail.

Compare now a repository with the same one in which a file is empty; the file must not be the ignore file. An analysis
of the one succeeds exactly if an analysis of the other does and the file does not break it. If both succeed, the
hazards in all other files are the same. So are the complex functions in them, unless a function in the file has more
branches than a double can count, and so are their missing documentation and tests, unless the file is too large to be
listed and too long a name keeps it from being asked for its tests. -/
theorem run_isolates_unless_broken {fs : Files} (hfs : fs.WellFormed) {request : Request} (husable : request.Usable)
    {root : Path} {top : Place} (htop : fs.resolve root = .ok top) :
    ((∃ a, run fs root request = .ok a) ↔
        (∃ infos, files fs (Files.pathOf top) request = .ok infos) ∧ ∀ p, ¬ Breaks fs top request p) ∧
      (fs.LinkFree → ∃ infos, files fs (Files.pathOf top) request = .ok infos) ∧
      (∀ p, Breaks fs top request p → ∃ fault, run fs root request = .error (.malformedSource fault)) ∧
      ∀ p bytes time, fs.entry? p = some (.file bytes time) →
        fs.follow (Files.extend (Files.pathOf top) ".gitignore") ≠ .ok p →
        ((∃ a, run fs root request = .ok a) ↔
            (∃ b, run (fs.put p (.file [] time)) root request = .ok b) ∧ ¬ Breaks fs top request p) ∧
          ∀ a b, run fs root request = .ok a → run (fs.put p (.file [] time)) root request = .ok b →
            elsewhere (Scan.relativeTo top p).toString (·.file) b.findings.security =
                elsewhere (Scan.relativeTo top p).toString (·.file) a.findings.security ∧
              ((∀ tree, Script.parse (Files.textOf bytes) = .ok tree → ∀ node ∈ tree.levelOrder,
                  Source.branches node ≤ Number.greatest) →
                elsewhere (Scan.relativeTo top p).toString (·.file) b.findings.complexity =
                  elsewhere (Scan.relativeTo top p).toString (·.file) a.findings.complexity) ∧
              ((∃ maxBytes, (request.maxBytes.orElse (.int usualMaxBytes)).toInt = .ok maxBytes ∧
                    (bytes.length : ℤ) ≤ maxBytes) ∨
                  (∃ gap, Testing.inspect fs (Files.pathOf top) (Scan.relativeTo top p) = .ok gap) →
                elsewhere (Scan.relativeTo top p).toString (·.file) b.findings.documentation =
                    elsewhere (Scan.relativeTo top p).toString (·.file) a.findings.documentation ∧
                  elsewhere (Scan.relativeTo top p).toString (·.file) b.findings.testing =
                    elsewhere (Scan.relativeTo top p).toString (·.file) a.findings.testing) := by
  refine ⟨exists_run_iff_not_breaks hfs husable htop, fun hlinks => exists_files_of_linkFree hfs hlinks husable htop,
    fun p => run_eq_error_of_breaks husable htop, fun p bytes time hfile hignore => ⟨?_, fun a b hrun hrun' => ?_⟩⟩
  · have h := Files.twins_put hfile []
    have hempty := sourceText_of_find top (h.find_pathOf hfs hfile (entry?_emptied hfile)).2
    exact exists_run_iff_of_twins h hfs husable htop hignore (not_breaks_of_empty hempty)
  · exact findings_twins_empty hfs husable htop hfile hignore hrun hrun'

/-- A script that is no program, beside one that is. -/
def malformedPair : Files :=
  pair (Text.encode "def (\n") (Text.encode "eval(x)\n")

/-- An analysis of a good script fails because of the malformed one beside it, and succeeds once that one is empty. -/
theorem run_malformedPair :
    Breaks malformedPair [] allScripts ["a.py"] ∧
      (∃ fault, run malformedPair ⟨"", []⟩ allScripts = .error (.malformedSource fault)) ∧
      ∃ b, run (malformedPair.put ["a.py"] (.file [] 0)) ⟨"", []⟩ allScripts = .ok b := by
  have hfs : malformedPair.WellFormed :=
    { toRooted := .of_entries (by decide) (by decide), distinct := by decide, ne_nil := by decide, named := by decide }
  have htop : (malformedPair.resolve ⟨"", []⟩).toOption = some [] := by decide +kernel
  have hlisted : ((files malformedPair (pathOf []) allScripts).toOption.map fun infos => infos.map (·.path)) =
      some [⟨"", ["a.py"]⟩, ⟨"", ["b.py"]⟩] := by
    decide +kernel
  have hscript : Modules.IsScript (pathOf []) ⟨"", ["a.py"]⟩ := by
    rw [Modules.IsScript]
    decide +kernel
  have hfails : (Script.parse (sourceText malformedPair (pathOf []) ⟨"", ["a.py"]⟩)).toOption = none := by decide +kernel
  have hempty : (run (malformedPair.put ["a.py"] (.file [] 0)) ⟨"", []⟩ allScripts).toOption.isSome = true := by
    decide +kernel
  obtain ⟨infos, hinfos, hpaths⟩ := Outcome.exists_ok_of_map hlisted
  obtain ⟨b, hb⟩ := Option.isSome_iff_exists.mp hempty
  have hbreaks : Breaks malformedPair [] allScripts ["a.py"] := by
    refine ⟨infos, hinfos, by rw [hpaths]; exact List.mem_cons_self, hscript, ?_⟩
    cases hparse : Script.parse (sourceText malformedPair (pathOf []) ⟨"", ["a.py"]⟩) with
    | error fault => exact ⟨fault, hparse⟩
    | ok tree =>
      rw [hparse] at hfails
      cases hfails
  obtain ⟨-, -, hbroken, -⟩ :=
    run_isolates_unless_broken hfs (Request.usable_of_wanted ["*.py"]) (Outcome.eq_ok_of_toOption htop)
  exact ⟨hbreaks, hbroken _ hbreaks, b, Outcome.eq_ok_of_toOption hb⟩

end CodeAudit.Analysis
