import CodeAudit.Analysis.Summary
import CodeAudit.Proofs.Analysis.Run
import CodeAudit.Proofs.Source.Language
import CodeAudit.Proofs.Source.Links

/-!
# Languages of an analysis

An analysis lists files with their languages and reads them as modules, which tell their languages anew. The two agree
on all files but two kinds: those with a suffix that only the listing knows, which are analysed in no language, and those
whose name is nothing but an ending, which are listed in no language. The counts by language and the search for hazards
follow the modules.

## Main definitions

* `Security.hazardsIn` — the hazards of a text in a language.
* `Analysis.listedIn`, `Analysis.bareIn`, `Analysis.passedOver` — how many files are listed
  in a language, and on how many of them an analysis differs.

## Main results

* `Scan.text_of_mem_scan` — the text of a path that is listed ends with its name.
* `Analysis.languages_agree_unless_divided` — the languages of an analysis.
-/

namespace CodeAudit

open CodeAudit.Language Files List Modules

/-! ## Paths that are listed -/

/-- The text of a place ends with its last name. -/
lemma Files.toString_pathOf_concat (place : Place) (name : String) :
    ∃ dirs, (pathOf (place ++ [name])).toString.toList = dirs ++ '/' :: name.toList := by
  have htext : (pathOf (place ++ [name])).toString.toList =
      '/' :: (Path.toString ⟨"", place ++ [name]⟩).toList := by
    simp [pathOf, Path.toString]
  rw [htext]
  by_cases hplace : place = []
  · exact ⟨[], by simp [hplace]⟩
  · rw [Path.toList_toString_concat hplace]
    exact ⟨'/' :: (Path.toString ⟨"", place⟩).toList, by simp⟩

namespace Scan

variable {fs : Files} {top : Place}

/-- A place other than the top keeps its name in its path. -/
lemma name_relativeTo {place : Place} {name : String} (h : place ++ [name] ≠ top) :
    (relativeTo top (place ++ [name])).name = name := by
  unfold relativeTo
  split_ifs with hbelow
  · rcases prefix_concat_iff.mp ( isPrefixOf_iff_prefix.mp hbelow) with heq | ⟨rest, rfl⟩
    · exact absurd heq.symm h
    · simp [Path.name]
  · simp [Path.name, pathOf]

/-- **The text of a path that is listed ends with its name.** -/
lemma text_of_mem_scan (hfs : fs.WellFormed) {root : Path} {options : Options} {infos : List FileInfo}
    (hroot : fs.resolve root = .ok top) (h : scan fs root options = .ok infos) {info : FileInfo} (hinfo : info ∈ infos) :
    ∃ dirs, ((pathOf top).join info.path).toString.toList = dirs ++ '/' :: info.path.name.toList := by
  obtain ⟨x, hx, place, hplace, hinspect⟩ := (mem_scan_iff hroot h info).mp hinfo
  obtain ⟨bytes, time, hfile⟩ := file_of_inspect? (hfs.straight_resolve hplace) hinspect
  -- a scan meets nothing unless it starts at a directory
  have htop : fs.entry? top = some .folder := by
    by_contra hno
    rw [met, visit_eq_nil hfs (hfs.straight_resolve hroot) hno] at hx
    cases hx
  have hne : place ≠ top := by
    rintro rfl
    rw [hfile] at htop
    cases htop
  rw [path_of_inspect? hinspect, join_relativeTo]
  obtain rfl | ⟨dirs, name, rfl⟩ := eq_nil_or_concat' place
  · simp at hfile
  · rw [name_relativeTo hne]
    exact toString_pathOf_concat dirs name

end Scan

/-! ## Modules and their languages -/

/-- The hazards of a text in a language. -/
def Security.hazardsIn (lang : Language) (path : Path) (source : String) : List SecurityFinding :=
  match lang with
  | .python => scanScript path source
  | .javascript | .typescript => scanText path source
  | _ => []

namespace Analysis

/-- How many files are listed in a language. -/
def listedIn (infos : List FileInfo) (lang : Language) : ℕ :=
  infos.countP (·.language == lang)

/-- How many files have a name that is nothing but the ending of a language. -/
def bareIn (infos : List FileInfo) (lang : Language) : ℕ :=
  infos.countP (bare? ·.path == some lang)

/-- How many files are listed in a language by a suffix that only the listing knows. -/
def passedOver (infos : List FileInfo) (lang : Language) : ℕ :=
  infos.countP fun info => info.language == lang && decide (Text.lower info.path.suffix ∈ listedOnly)

lemma hazardsOf_eq (fs : Files) (root : Path) (m : ModuleUnit) :
    hazardsOf fs root m =
      Security.hazardsIn (ofEnding (root.join m.path).toString) m.path (sourceText fs root m.path) := by
  unfold hazardsOf Security.hazardsIn
  cases ofEnding (root.join m.path).toString <;> rfl

/-- What one file adds to the counts of a language. -/
lemma analysed_cases {lang : Language} (hlang : lang ≠ .unknown) (p : Path) :
    (if analysed p = lang then 1 else 0) +
        (if ofSuffix p = lang ∧ Text.lower p.suffix ∈ listedOnly then 1 else 0) =
      (if ofSuffix p = lang then 1 else 0) + if bare? p = some lang then 1 else 0 := by
  unfold analysed
  cases hbare : bare? p with
  | some own =>
    have hsuffix := lower_suffix_of_bare (Option.isSome_of_eq_some hbare)
    simp [ofSuffix, hsuffix, listedOnly, hlang.symm]
  | none =>
    by_cases hsuffix : Text.lower p.suffix ∈ listedOnly
    · simp [hsuffix, hlang.symm]
    · simp [hsuffix]

/-- The files that are analysed in a language: those that are listed in it, without those that are passed over, and
those whose name is its ending. -/
lemma countP_analysed_add {infos : List FileInfo} (h : ∀ info ∈ infos, info.language = ofSuffix info.path)
    {lang : Language} (hlang : lang ≠ .unknown) :
    infos.countP (analysed ·.path == lang) + passedOver infos lang = listedIn infos lang + bareIn infos lang := by
  unfold passedOver listedIn bareIn
  induction infos with
  | nil => simp
  | cons info infos ih =>
    have ih := ih fun other hother => h other (mem_cons_of_mem _ hother)
    have hone := analysed_cases hlang info.path
    rw [← h info mem_cons_self] at hone
    simp only [countP_cons, beq_iff_eq, Bool.and_eq_true, decide_eq_true_eq]
    omega

/-- The options with which an analysis scans. -/
lemma exists_scan_of_files {fs : Files} {root : Path} {request : Request} {infos : List FileInfo}
    (h : files fs root request = .ok infos) : ∃ options, Scan.scan fs root options = .ok infos := by
  unfold files at h
  obtain ⟨maxBytes, -, h⟩ := Outcome.bind_eq_ok.mp h
  exact ⟨_, h⟩

section Listed

variable {fs : Files} (hfs : fs.WellFormed) {root : Path} {top : Place} (htop : fs.resolve root = .ok top)
  {request : Request} {infos : List FileInfo} (hinfos : files fs (pathOf top) request = .ok infos)

include hfs htop hinfos

/-- What a listing and an analysis tell of a file. -/
lemma language_of_mem_files {info : FileInfo} (hinfo : info ∈ infos) :
    info.language = ofSuffix info.path ∧
      ofEnding ((pathOf top).join info.path).toString = analysed info.path := by
  obtain ⟨options, hscan⟩ := exists_scan_of_files hinfos
  have hroot := (hfs.straight_resolve htop).resolve_pathOf
  obtain ⟨dirs, htext⟩ := Scan.text_of_mem_scan hfs hroot hscan hinfo
  exact ⟨Scan.language_of_mem_scan hroot hscan hinfo, ofEnding_eq_analysed htext⟩

/-- **The modules of an analysis**, with their languages. -/
lemma map_lang_of_readAll {modules : List ModuleUnit}
    (h : readAll fs (pathOf top) (infos.map (·.path)) = .ok modules) :
    (modules.map fun m => (m.path, m.lang)) = infos.map fun info => (info.path, analysed info.path) := by
  have hmap : (modules.map fun m => (m.path, m.lang)) = (infos.map (·.path)).map fun path => (path, analysed path) := by
    refine Outcome.map_eq_of_mapM h fun path hpath m hm => ?_
    obtain ⟨info, hinfo, rfl⟩ := mem_map.mp hpath
    rw [path_of_readModule hm, lang_of_readModule hm, (language_of_mem_files hfs htop hinfos hinfo).2]
  rw [hmap, map_map, Function.comp_def]

/-- The hazards that an analysis finds are those of each file in the language in which it is analysed. -/
lemma security_of_detect {modules : List ModuleUnit} {rules : Datum} {findings : Findings}
    (h : readAll fs (pathOf top) (infos.map (·.path)) = .ok modules)
    (hdetect : detect fs (pathOf top) rules modules = .ok findings) :
    findings.security = infos.flatMap fun info => Security.hazardsIn (analysed info.path) info.path
      (sourceText fs (pathOf top) info.path) := by
  obtain ⟨-, -, hsecurity, -⟩ := of_detect hdetect
  have hmap : modules.map (hazardsOf fs (pathOf top)) = infos.map fun info =>
      Security.hazardsIn (analysed info.path) info.path (sourceText fs (pathOf top) info.path) := by
    have hpath := Outcome.map_eq_of_mapM h (k := hazardsOf fs (pathOf top)) (l := fun path =>
      Security.hazardsIn (analysed path) path (sourceText fs (pathOf top) path)) ?_
    · rw [hpath, map_map, Function.comp_def]
    · intro path hpath m hm
      obtain ⟨info, hinfo, rfl⟩ := mem_map.mp hpath
      rw [hazardsOf_eq, path_of_readModule hm, (language_of_mem_files hfs htop hinfos hinfo).2]
  rw [hsecurity, flatMap_def, flatMap_def, hmap]

/-- **Listing and analysis agree on the languages of all files that are not divided.** The module of a listed file is in
the language that its name tells, which is the listed one exactly if the file is not divided. An analysis counts the
files that are listed in a language without those that are passed over, and those whose name is nothing but the ending
of the language; and it looks for hazards in the language of the module. If no listed file is divided, it counts the
files as they are listed and looks for hazards in the listed languages.

**Proof sketch.** A listed file stands at a place below a directory, so the text of its path ends with a slash and its
name (`Scan.text_of_mem_scan`). Then the end of the path is the suffix of the name or the name itself
(`Language.ofEnding_eq_analysed`). The counts are added up file by file. -/
theorem languages_agree_unless_divided :
    (∀ info ∈ infos, ∀ m, Modules.readModule fs (Files.pathOf top) info.path = .ok m →
        m.lang = Language.analysed info.path ∧ (m.lang = info.language ↔ ¬ Language.Divided info.path)) ∧
      ∀ a, run fs root request = .ok a →
        (a.modules.map fun m => (m.path, m.lang)) = (infos.map fun info => (info.path, Language.analysed info.path)) ∧
        a.byLanguage = .object ([Language.python, .javascript, .typescript].map fun lang =>
          (lang.tag, .int (listedIn infos lang + bareIn infos lang - passedOver infos lang))) ∧
        a.findings.security = (infos.flatMap fun info => Security.hazardsIn (Language.analysed info.path) info.path
          (Modules.sourceText fs (Files.pathOf top) info.path)) ∧
        ((∀ info ∈ infos, ¬ Language.Divided info.path) →
          a.byLanguage = .object ([Language.python, .javascript, .typescript].map fun lang =>
            (lang.tag, .int (listedIn infos lang))) ∧
          a.findings.security = infos.flatMap fun info => Security.hazardsIn info.language info.path
            (Modules.sourceText fs (Files.pathOf top) info.path)) := by
  have hlanguage : ∀ info ∈ infos, info.language = Language.ofSuffix info.path ∧
      Language.ofEnding ((Files.pathOf top).join info.path).toString = Language.analysed info.path :=
    fun info hinfo => language_of_mem_files hfs htop hinfos hinfo
  refine ⟨fun info hinfo m hm => ?_, fun a hrun => ?_⟩
  · have hlang : m.lang = Language.analysed info.path := (Modules.lang_of_readModule hm).trans (hlanguage info hinfo).2
    rw [hlang, (hlanguage info hinfo).1]
    exact ⟨rfl, Language.analysed_eq_ofSuffix_iff info.path⟩
  · obtain ⟨top', infos', h⟩ := stages_of_run hrun
    obtain rfl : top = top' := Except.ok.inj (htop.symm.trans h.resolved)
    obtain rfl : infos = infos' := Except.ok.inj (hinfos.symm.trans h.scanned)
    have hmodules := map_lang_of_readAll hfs htop hinfos h.read
    have hsecurity := security_of_detect hfs htop hinfos h.read h.detected
    have hcount : ∀ lang : Language,
        a.modules.countP (·.lang == lang) = infos.countP (Language.analysed ·.path == lang) := by
      intro lang
      simpa [List.countP_map, Function.comp_def] using congrArg (List.countP fun x => x.2 == lang) hmodules
    refine ⟨hmodules, ?_, hsecurity, fun hwhole => ?_⟩
    · unfold byLanguage
      refine congrArg Datum.object (List.map_congr_left fun lang hlang => ?_)
      have hknown : lang ≠ .unknown := by
        rintro rfl
        simp at hlang
      have hadd := countP_analysed_add (fun info hinfo => (hlanguage info hinfo).1) hknown
      rw [← hcount] at hadd
      rw [show (listedIn infos lang : ℤ) + bareIn infos lang - passedOver infos lang = a.modules.countP (·.lang == lang) by
        omega]
    · have hsame : ∀ info ∈ infos, Language.analysed info.path = info.language := fun info hinfo =>
        ((Language.analysed_eq_ofSuffix_iff info.path).mpr (hwhole info hinfo)).trans (hlanguage info hinfo).1.symm
      constructor
      · unfold byLanguage listedIn
        refine congrArg Datum.object (List.map_congr_left fun lang _ => ?_)
        rw [hcount lang, List.countP_congr fun info hinfo => by rw [hsame info hinfo]]
      · rw [hsecurity]
        exact List.flatMap_congr fun info hinfo => by rw [hsame info hinfo]

end Listed

/-- A repository of one file with a suffix that only the listing knows. -/
def loneModule : Files :=
  lone "a.mjs" (Text.encode "eval(x)\n")

/-- A file with a suffix that only the listing knows is listed in its language, but analysed and counted in none; and
nothing is looked for in it, though its language would tell a hazard. -/
theorem languages_loneModule : ∃ a info, run loneModule ⟨"", []⟩ allFiles = .ok a ∧
    files loneModule (Files.pathOf []) allFiles = .ok [info] ∧ info.language = .javascript ∧
    (a.modules.map fun m => (m.path, m.lang)) = [(⟨"", ["a.mjs"]⟩, .unknown)] ∧
    a.byLanguage = .object [("python", .int 0), ("javascript", .int 0), ("typescript", .int 0)] ∧
    a.findings.security = [] ∧ Security.hazardsIn info.language info.path "eval(x)\n" ≠ [] := by
  have hfs : loneModule.WellFormed :=
    { toRooted := .of_entries (by decide) (by decide), distinct := by decide, ne_nil := by decide, named := by decide }
  have htop : (loneModule.resolve ⟨"", []⟩).toOption = some [] := by decide +kernel
  have hlisted : ((files loneModule (Files.pathOf []) allFiles).toOption.map fun infos =>
      infos.map fun info => (info.path, info.language)) = some [(⟨"", ["a.mjs"]⟩, .javascript)] := by
    decide +kernel
  have hfound : (run loneModule ⟨"", []⟩ allFiles).toOption.isSome = true := by decide +kernel
  obtain ⟨infos, hinfos, hinfo⟩ := Outcome.exists_ok_of_map hlisted
  obtain ⟨info, rfl, htold⟩ := List.map_eq_singleton_iff.mp hinfo
  obtain ⟨hpath, hjavascript⟩ := Prod.mk.inj htold
  obtain ⟨a, hrun⟩ := Option.isSome_iff_exists.mp hfound
  have hrun := Outcome.eq_ok_of_toOption hrun
  have hbare : Language.bare? ⟨"", ["a.mjs"]⟩ = none := by decide +kernel
  have hsuffix : Text.lower (Path.suffix ⟨"", ["a.mjs"]⟩) ∈ Language.listedOnly := by decide +kernel
  have hanalysed : Language.analysed ⟨"", ["a.mjs"]⟩ = .unknown := by simp [Language.analysed, hbare, hsuffix]
  obtain ⟨hmodules, hcounts, hsecurity, -⟩ :=
    (languages_agree_unless_divided hfs (Outcome.eq_ok_of_toOption htop) hinfos).2 a hrun
  refine ⟨a, info, hrun, hinfos, hjavascript, ?_, ?_, ?_, ?_⟩
  · rw [hmodules]
    simp [hpath, hanalysed]
  · rw [hcounts]
    simp [listedIn, bareIn, passedOver, hpath, hjavascript, hbare, hsuffix, Language.tag]
  · simp [hsecurity, hpath, hanalysed, Security.hazardsIn]
  · rw [hjavascript, hpath]
    decide +kernel

end Analysis

end CodeAudit
