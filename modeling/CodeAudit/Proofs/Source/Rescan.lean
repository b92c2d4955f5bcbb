import CodeAudit.Proofs.Source.Coverage
import CodeAudit.Proofs.Source.Links

/-!
# Scanning again after a report was written

An audit scans a repository twice: once for the list of files, and once for the analysis, after a report was started.
The second scan takes the usual patterns and the usual limit where the first one has none or zero, and it meets the
report if this lies in the repository. This module compares what the two scans list.

## Main definitions

* `Scan.Admitted` — a file that is let through by its path.
* `Scan.Widens`, `Scan.Shifts` — the ways in which the second scan differs.

## Main results

* `Scan.admitted_again_iff` — both scans let the same files through by their paths.
* `Scan.same_paths_iff` — when both scans list the same paths.
-/

namespace CodeAudit.Scan

open Files

open Analysis (orUsual usualWanted usualUnwanted usualMaxBytes)

/-- **A file that is let through by its path**: no directory above it is closed or unwanted, and it is wanted and not
unwanted. -/
structure Admitted (fs : Files) (top : Place) (options : Options) (names : List String) : Prop where
  below : names ≠ []
  reached : ∀ dir, dir <+: names → dir ≠ [] → dir ≠ names →
    Path.name ⟨"", dir⟩ ∉ closedFolders ∧ isUnwanted (rules fs (pathOf top) options) options ⟨"", dir⟩ = false
  allowed : isUnwanted (rules fs (pathOf top) options) options ⟨"", names⟩ = false
  wanted : Shell.fitsAny options.wanted (Path.toString ⟨"", names⟩) = true

/-- A file within a limit of size stands at a place. -/
def Within (fs : Files) (limit : ℤ) (place : Place) : Prop :=
  ∃ bytes time, fs.entry? place = some (.file bytes time) ∧ (bytes.length : ℤ) ≤ limit

/-- **The options of the second scan.** -/
def again (options : Options) : Options where
  wanted := orUsual options.wanted usualWanted
  unwanted := orUsual options.unwanted usualUnwanted
  maxBytes := if options.maxBytes = 0 then usualMaxBytes else options.maxBytes

section Paths

variable {fs : Files} {top : Place} {options : Options}

variable {gs : Files} {options' : Options} {names : List String} {root : Path} {infos : List FileInfo}

/-- Two trees with options agree on what is unwanted among the directories above a file and the file itself, if no
directory above it is closed. -/
def Agree (fs gs : Files) (top : Place) (options options' : Options) (names : List String) : Prop :=
  (∀ dir ∈ names.dropLast, dir ∉ closedFolders) → ∀ dir, dir <+: names → dir ≠ [] →
    isUnwanted (rules fs (pathOf top) options) options ⟨"", dir⟩ =
      isUnwanted (rules gs (pathOf top) options') options' ⟨"", dir⟩

lemma Agree.symm (h : Agree fs gs top options options' names) : Agree gs fs top options' options names :=
  fun hopen dir hdir hnil => (h hopen dir hdir hnil).symm

/-- A file that is let through is so in a tree with options that agree. -/
lemma Admitted.of_agree (hagree : Agree fs gs top options options' names) (hwanted : options.wanted = options'.wanted)
    (h : Admitted fs top options names) : Admitted gs top options' names := by
  have hopen : ∀ dir ∈ names.dropLast, dir ∉ closedFolders :=
    forall_above_iff.mp fun dir hdir hnil hne => (h.reached dir hdir hnil hne).1
  refine ⟨h.below, fun dir hdir hnil hne => ?_, ?_, hwanted ▸ h.wanted⟩
  · rw [← hagree hopen dir hdir hnil]
    exact h.reached dir hdir hnil hne
  · rw [← hagree hopen names List.prefix_rfl h.below]
    exact h.allowed

/-- There is no directory above a file at the top. -/
lemma admitted_singleton_iff {name : String} : Admitted fs top options [name] ↔
    isUnwanted (rules fs (pathOf top) options) options ⟨"", [name]⟩ = false ∧
      Shell.fitsAny options.wanted (Path.toString ⟨"", [name]⟩) = true := by
  refine ⟨fun h => ⟨h.allowed, h.wanted⟩, fun h => ⟨by simp, fun dir hdir hnil hne => ?_, h.1, h.2⟩⟩
  exact absurd (List.prefix_nil.mp ((List.prefix_concat_iff.mp hdir).resolve_left hne)) hnil

/-- What is listed is let through by its path and within the limit. -/
lemma exists_listed_iff_admitted (hfs : fs.WellFormed) (hlinks : fs.LinkFreeBelow top) :
    (∃ e text, Listed fs top options names e text) ↔
      Admitted fs top options names ∧ Within fs options.maxBytes (top ++ names) := by
  constructor
  · rintro ⟨e, text, hl⟩
    have hstraight := hfs.straight_of_mem hl.stands fun target heq =>
      hlinks names target (hl.stands.trans (congrArg some heq))
    obtain ⟨bytes, time, hfile⟩ := hstraight.file_of_readText hl.readable
    obtain rfl : e = .file bytes time := Option.some.inj (hl.stands.symm.trans hfile)
    exact ⟨⟨hl.below, hl.reached, hl.allowed, hl.wanted⟩, bytes, time, hfile, hl.small⟩
  · rintro ⟨hadmitted, bytes, time, hfile, hsmall⟩
    have hfind := hfs.find_pathOf_of_mem hfile (by simp)
    exact ⟨.file bytes time, textOf bytes, hadmitted.below, hfile, by simp, hadmitted.reached, hadmitted.allowed,
      hadmitted.wanted, hsmall, readText_of_find hfind⟩

/-- **The paths that a scan lists.** -/
lemma mem_map_path_iff (hfs : fs.WellFormed) (hlinks : fs.LinkFreeBelow top)
    (hroot : fs.resolve root = .ok top) (hscan : scan fs root options = .ok infos) {p : Path} :
    p ∈ infos.map (·.path) ↔ ∃ names, p = ⟨"", names⟩ ∧ Admitted fs top options names ∧
      Within fs options.maxBytes (top ++ names) := by
  simp only [List.mem_map, mem_scan_below_iff hfs hlinks hroot hscan, ← exists_listed_iff_admitted hfs hlinks]
  constructor
  · rintro ⟨_, ⟨names, e, text, hl, rfl⟩, rfl⟩
    exact ⟨names, rfl, e, text, hl⟩
  · rintro ⟨names, rfl, e, text, hl⟩
    exact ⟨_, ⟨names, e, text, hl, rfl⟩, rfl⟩

/-- Without links below the top no file is listed twice. -/
lemma nodup_map_path_below (hfs : fs.WellFormed) (hlinks : fs.LinkFreeBelow top)
    (hroot : fs.resolve root = .ok top) (hscan : scan fs root options = .ok infos) :
    (infos.map (·.path)).Nodup := by
  have hnolink : ∀ {names : List String}, ¬ ∃ target, fs.entry? (top ++ names) = some (.link target) :=
    fun ⟨target, hlink⟩ => hlinks _ target hlink
  refine (nodup_map_path_iff hfs (hfs.straight_resolve hroot) (fun _ => hlinks) hroot hscan).mpr ?_
  intro names names' place htells htells'
  exact List.append_cancel_left ((htells.place_eq hfs hnolink).symm.trans (htells'.place_eq hfs hnolink))

end Paths

/-! ## Two scans -/

/-- **The second scan lists larger files**: the limit is zero, and a file that is let through is not empty but within the
usual limit. -/
def Widens (fs : Files) (top : Place) (options : Options) (report : Place) : Prop :=
  options.maxBytes = 0 ∧ ∃ names bytes time, top ++ names ≠ report ∧ Admitted fs top options names ∧
    fs.entry? (top ++ names) = some (.file bytes time) ∧ 0 < bytes.length ∧ (bytes.length : ℤ) ≤ usualMaxBytes

/-- **The report is listed by one scan only**: it is let through, and a file within the limit stands at its place before
it is written or afterwards, but not both. -/
def Shifts (before after : Files) (top : Place) (options : Options) (report : Place) : Prop :=
  ∃ names, top ++ names = report ∧ Admitted before top options names ∧
    ¬ (Within before options.maxBytes report ↔ Within after (again options).maxBytes report)

section Two

variable {before after : Files} {top report : Place} {options : Options}

variable {names : List String} {place : Place} {root root' : Path} {infos infos' : List FileInfo}

/-- Both scans have the same ignore rules to start with, if the report is not the ignore file. -/
lemma ignoreLines_again (hbefore : before.WellFormed) (hafter : after.WellFormed)
    (hplace : before.Straight (top ++ [".gitignore"])) (hplace' : after.Straight (top ++ [".gitignore"]))
    (hsame : ∀ bytes time, after.entry? (top ++ [".gitignore"]) = some (.file bytes time) ↔
      before.entry? (top ++ [".gitignore"]) = some (.file bytes time)) :
    ignoreLines after (pathOf top) = ignoreLines before (pathOf top) := by
  by_cases hfile : ∃ bytes time, before.entry? (top ++ [".gitignore"]) = some (.file bytes time)
  · obtain ⟨bytes, time, hfile⟩ := hfile
    rw [ignoreLines_of_file hbefore hfile, ignoreLines_of_file hafter ((hsame bytes time).mpr hfile)]
  · have hnone : ∀ bytes time, before.entry? (top ++ [".gitignore"]) ≠ some (.file bytes time) :=
      fun bytes time h => hfile ⟨bytes, time, h⟩
    rw [ignoreLines_eq_nil hplace hnone, ignoreLines_eq_nil hplace' fun bytes time => mt (hsame bytes time).mp (hnone bytes time)]

/-- Behind open directories the same is unwanted in both scans. -/
lemma isUnwanted_again (hlines : ignoreLines after (pathOf top) = ignoreLines before (pathOf top))
    (hrules : options.ignoreRules = true) (hne : names ≠ [])
    (h : ∀ name ∈ names, Path.IsName name) (hopen : ∀ dir ∈ names.dropLast, dir ∉ closedFolders) :
    isUnwanted (rules after (pathOf top) (again options)) (again options) ⟨"", names⟩ =
      isUnwanted (rules before (pathOf top) options) options ⟨"", names⟩ := by
  have hbefore : rules after (pathOf top) (again options) = rules before (pathOf top) (again options) := by
    rw [rules, rules, hlines]
  rw [hbefore]
  by_cases hnone : options.unwanted = []
  · exact isUnwanted_usual hne h hopen hnone (by simp [again, orUsual, hnone]) hrules.symm before _
  · have hsame : (again options).unwanted = options.unwanted := by simp [again, orUsual, hnone]
    have hignore : (again options).ignoreRules = options.ignoreRules := hrules.symm
    rw [isUnwanted, isUnwanted, rules, rules, hsame, hignore]

/-- **Both scans let the same files through by their paths.** -/
lemma admitted_again_iff (hlines : ignoreLines after (pathOf top) = ignoreLines before (pathOf top))
    (hrules : options.ignoreRules = true) (hwanted : options.wanted ≠ [])
    (h : ∀ name ∈ names, Path.IsName name) :
    Admitted after top (again options) names ↔ Admitted before top options names := by
  have hagree : Agree after before top (again options) options names := by
    intro hopen dir hdir hnil
    refine isUnwanted_again hlines hrules hnil (fun name hname => h name (hdir.subset hname)) fun name hname => ?_
    obtain ⟨back, rfl⟩ := hdir
    refine hopen name ?_
    cases back with
    | nil => simpa using hname
    | cons first back =>
      rw [List.dropLast_append_of_ne_nil (by simp)]
      exact List.mem_append_left _ (List.mem_of_mem_dropLast hname)
  have hpatterns : (again options).wanted = options.wanted := by simp [again, orUsual, hwanted]
  exact ⟨.of_agree hagree hpatterns, .of_agree hagree.symm hpatterns.symm⟩

/-- A file within either limit is within the other, unless the limit is zero and the file is not empty but within the
usual limit. -/
lemma within_again_iff {fs : Files} : (Within fs options.maxBytes place ↔ Within fs (again options).maxBytes place) ↔
      ¬ (options.maxBytes = 0 ∧ ∃ bytes time, fs.entry? place = some (.file bytes time) ∧ 0 < bytes.length ∧
        (bytes.length : ℤ) ≤ usualMaxBytes) := by
  by_cases hzero : options.maxBytes = 0
  · have hagain : (again options).maxBytes = usualMaxBytes := by simp [again, hzero]
    rw [hzero, hagain]
    constructor
    · rintro h ⟨-, bytes, time, hfile, hpos, hle⟩
      obtain ⟨bytes', time', hfile', hzero⟩ := h.mpr ⟨bytes, time, hfile, hle⟩
      obtain ⟨rfl, rfl⟩ : bytes = bytes' ∧ time = time' := by simpa [hfile] using hfile'
      omega
    · intro h
      constructor
      · rintro ⟨bytes, time, hfile, hle⟩
        exact ⟨bytes, time, hfile, hle.trans (by decide)⟩
      · rintro ⟨bytes, time, hfile, hle⟩
        refine ⟨bytes, time, hfile, ?_⟩
        by_contra hpos
        exact h ⟨rfl, bytes, time, hfile, by omega, hle⟩
  · simp [again, hzero]

/-- Where the same files stand, the same files are within a limit. -/
lemma within_congr {limit : ℤ} (h : ∀ bytes time,
      after.entry? place = some (.file bytes time) ↔ before.entry? place = some (.file bytes time)) :
    Within after limit place ↔ Within before limit place := by
  simp only [Within, h]

/-- The two scans differ exactly in files that are let through and within one limit only. -/
lemma same_paths_iff_within (hbefore : before.WellFormed) (hafter : after.WellFormed)
    (hlinks : before.LinkFreeBelow top) (hlinks' : after.LinkFreeBelow top)
    (hroot : before.resolve root = .ok top) (hroot' : after.resolve root' = .ok top)
    (hlines : ignoreLines after (pathOf top) = ignoreLines before (pathOf top))
    (hrules : options.ignoreRules = true) (hwanted : options.wanted ≠ [])
    (hscan : scan before root options = .ok infos) (hscan' : scan after root' (again options) = .ok infos') :
    (∀ p, p ∈ infos.map (·.path) ↔ p ∈ infos'.map (·.path)) ↔ ∀ names, Admitted before top options names →
      (Within before options.maxBytes (top ++ names) ↔ Within after (again options).maxBytes (top ++ names)) := by
  have hnamed {fs : Files} (hfs : fs.WellFormed) {limit : ℤ} {names : List String}
      (h : Within fs limit (top ++ names)) :
      Admitted after top (again options) names ↔ Admitted before top options names := by
    obtain ⟨bytes, time, hfile, -⟩ := h
    exact admitted_again_iff hlines hrules hwanted fun name hname =>
      (hfs.isName_of_entry?_eq_some hfile (List.mem_append_right _ hname)).1
  simp only [mem_map_path_iff hbefore hlinks hroot hscan, mem_map_path_iff hafter hlinks' hroot' hscan']
  constructor
  · intro h names hadmitted
    constructor
    · intro hwithin
      obtain ⟨_, heq, -, hwithin'⟩ := (h ⟨"", names⟩).mp ⟨names, rfl, hadmitted, hwithin⟩
      exact (Path.mk.inj heq).2 ▸ hwithin'
    · intro hwithin
      obtain ⟨_, heq, -, hwithin'⟩ := (h ⟨"", names⟩).mpr ⟨names, rfl, (hnamed hafter hwithin).mpr hadmitted, hwithin⟩
      exact (Path.mk.inj heq).2 ▸ hwithin'
  · intro h p
    refine exists_congr fun names => and_congr_right fun _ => ?_
    constructor
    · rintro ⟨hadmitted, hwithin⟩
      exact ⟨(hnamed hbefore hwithin).mpr hadmitted, (h names hadmitted).mp hwithin⟩
    · rintro ⟨hadmitted, hwithin⟩
      have hadmitted := (hnamed hafter hwithin).mp hadmitted
      exact ⟨hadmitted, (h names hadmitted).mpr hwithin⟩

/-- **When both scans list the same paths**: if neither larger files nor the report make a difference. -/
lemma same_paths_iff (hbefore : before.WellFormed) (hafter : after.WellFormed) (hlinks : before.LinkFreeBelow top)
    (hlinks' : after.LinkFreeBelow top) (hroot : before.resolve root = .ok top)
    (hroot' : after.resolve root' = .ok top) (hignore : top ++ [".gitignore"] ≠ report)
    (hkept : ∀ place, place ≠ report → ∀ bytes time,
      after.entry? place = some (.file bytes time) ↔ before.entry? place = some (.file bytes time))
    (hrules : options.ignoreRules = true) (hwanted : options.wanted ≠ [])
    (hscan : scan before root options = .ok infos) (hscan' : scan after root' (again options) = .ok infos') :
    (∀ p, p ∈ infos.map (·.path) ↔ p ∈ infos'.map (·.path)) ↔
      ¬ Widens before top options report ∧ ¬ Shifts before after top options report := by
  have hlines : ignoreLines after (pathOf top) = ignoreLines before (pathOf top) :=
    ignoreLines_again hbefore hafter
      ((hbefore.straight_resolve hroot).concat (by decide) (hlinks [".gitignore"]))
      ((hafter.straight_resolve hroot').concat (by decide) (hlinks' [".gitignore"])) (hkept _ hignore)
  rw [same_paths_iff_within hbefore hafter hlinks hlinks' hroot hroot' hlines hrules hwanted hscan hscan']
  constructor
  · intro h
    constructor
    · rintro ⟨hzero, names, bytes, time, hne, hadmitted, hfile, hpos, hle⟩
      refine within_again_iff.mp ?_ ⟨hzero, bytes, time, hfile, hpos, hle⟩
      rw [h names hadmitted, within_congr (hkept _ hne)]
    · rintro ⟨names, rfl, hadmitted, hnot⟩
      exact hnot (h names hadmitted)
  · rintro ⟨hwidens, hshifts⟩ names hadmitted
    by_cases heq : top ++ names = report
    · by_contra hnot
      exact hshifts ⟨names, heq, hadmitted, heq ▸ hnot⟩
    · rw [within_congr (hkept _ heq), within_again_iff]
      rintro ⟨hzero, bytes, time, hfile, hpos, hle⟩
      exact hwidens ⟨hzero, names, bytes, time, heq, hadmitted, hfile, hpos, hle⟩

end Two

end CodeAudit.Scan
