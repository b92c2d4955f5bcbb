import CodeAudit.Proofs.Files.Contents
import CodeAudit.Question.Artifacts

/-!
# The findings that go with a question

The reports of an analysis are looked for below a scope: one in Markdown, and one as JSON under its usual name or, failing
that, the exports in the directory of reports, newest first. Only a single export has a text, though: exports without a
report under the usual name are found as a row, and the row has no text.

## Main definitions

* `Artifacts.Regular` — all reports below a directory are files.
* `Artifacts.IsNewest` — the path of an export that was changed last.

## Main results

* `Artifacts.exportsIn_spec` — the exports in the directory of reports, newest first.
* `Artifacts.findings_unless_orphaned` — the findings have a text unless the exports are orphaned.
-/

namespace CodeAudit

open List Text Files

/-! ## Paths of places -/

namespace Files

variable {fs : Files}

variable {place : Place}

/-- On a way without links, names that are not too long are not the reason why nothing is found. -/
lemma Straight.followFrom_ne_longName {links : ℕ} {names : List String}
    (h : fs.Straight (place ++ names)) (hshort : ∀ name ∈ names, isTooLong name = false) :
    fs.followFrom links place names ≠ .error .longName := by
  induction names generalizing place with
  | nil => simp
  | cons name names ih =>
    have happend : place ++ name :: names = (place ++ [name]) ++ names := by simp
    have hname : name ≠ ".." := by
      rintro rfl
      exact h.points (by simp)
    cases hplace : fs.entry? place with
    | none => simp [followFrom_cons_missing hplace]
    | some e =>
      by_cases he : e = .folder
      · subst he
        rw [followFrom_cons_down hplace hname (hshort name mem_cons_self)
          (h.links _ (happend ▸ prefix_append _ _))]
        exact ih (happend ▸ h) fun n hn => hshort n (mem_cons_of_mem _ hn)
      · simp [followFrom_cons_notFolder hplace he]

/-- Nothing is found at the path of a place where nothing stands, and not because a name is too long. -/
lemma Straight.exists_find_eq_error (h : fs.Straight place) (hnone : fs.entry? place = none)
    (hshort : ∀ name ∈ place, isTooLong name = false) :
    ∃ fault, fs.find (pathOf place) = .error fault ∧ fault ≠ .longName := by
  have hlong : fs.follow (pathOf place) ≠ .error .longName := by
    rw [follow, start_pathOf]
    have hway : fs.Straight ([] ++ place) := h
    exact hway.followFrom_ne_longName hshort
  unfold find
  cases hfollow : fs.follow (pathOf place) with
  | error fault => exact ⟨fault, rfl, fun heq => hlong (heq ▸ hfollow)⟩
  | ok target =>
    refine ⟨.missing, ?_, by decide⟩
    obtain rfl := h.eq_of_follow_pathOf hfollow
    simp [hnone, bind, Except.bind]

/-- **Whether something stands at the path of a place** that is reached without links. -/
lemma WellFormed.exists?_pathOf (hfs : fs.WellFormed) (h : fs.Straight place)
    (hshort : ∀ name ∈ place, isTooLong name = false) :
    fs.exists? (pathOf place) = .ok (fs.entry? place).isSome := by
  cases hentry : fs.entry? place with
  | some e =>
    rw [ exists?, hfs.find_pathOf_of_mem hentry fun target heq => h.links place prefix_rfl target (heq ▸ hentry)]
    rfl
  | none =>
    obtain ⟨fault, hfault, hne⟩ := h.exists_find_eq_error hentry hshort
    rw [ exists?, hfault]
    cases fault <;> first | rfl | exact absurd rfl hne

end Files

namespace Artifacts

variable {name : String}

/-! ## Reports that are files -/

/-- **All reports below a directory are files**, and what holds them is a directory. -/
structure Regular (fs : Files) (base : Place) : Prop where
  scope : fs.entry? base = some .folder
  reports : ∀ e, fs.entry? (base ++ ["reports"]) = some e → e = .folder
  files : ∀ dir ∈ [base ++ ["reports"], base], ∀ name, name = "report.md" ∨ endsWith name ".json" = true →
    ∀ e, fs.entry? (dir ++ [name]) = some e → ∃ bytes time, e = .file bytes time

/-- The text of the file at a place, if a file stands there. -/
def textAt (fs : Files) (place : Place) : Option String :=
  match fs.entry? place with
  | some (.file bytes _) => some (textOf bytes)
  | _ => none

/-- **The text of the report under a given name**: of the one in the directory of reports, or else of the one beside
it. -/
def reportText (fs : Files) (base : Place) (name : String) : Option String :=
  (textAt fs (base ++ ["reports"] ++ [name])).or (textAt fs (base ++ [name]))

/-- A text with a heading, shortened where it is too long. -/
def headed (limit : ℤ) (heading text : String) : String :=
  "# " ++ heading ++ "\n" ++ shortened limit text

/-- There are exports in the directory of reports, but no report under the usual name. -/
def Orphaned (fs : Files) (base : Place) : Prop :=
  reportText fs base "report.json" = none ∧
    ∃ name, endsWith name ".json" = true ∧ (fs.entry? (base ++ ["reports"] ++ [name])).isSome

/-- **The path of an export that was changed last**: no other in the directory of reports was changed later. -/
def IsNewest (fs : Files) (base : Place) (p : Path) : Prop :=
  ∃ name bytes time, p = pathOf (base ++ ["reports"] ++ [name]) ∧ endsWith name ".json" = true ∧
    fs.entry? (base ++ ["reports"] ++ [name]) = some (.file bytes time) ∧
    ∀ other bytes' time', endsWith other ".json" = true →
      fs.entry? (base ++ ["reports"] ++ [other]) = some (.file bytes' time') → time' ≤ time

variable {fs : Files} {base : Place}

namespace Regular

variable (hfs : fs.WellFormed) (h : Regular fs base)

variable {dir : Place}

include hfs h

/-- The directories in which reports are looked for are reached without links. -/
lemma straight_dir (hdir : dir ∈ [base ++ ["reports"], base]) : fs.Straight dir := by
  have hbase := hfs.straight_of_mem h.scope (by simp)
  rcases mem_pair.mp hdir with rfl | rfl
  · exact hbase.concat (by decide) fun target hlink => by cases h.reports _ hlink
  · exact hbase

lemma short_dir (hdir : dir ∈ [base ++ ["reports"], base]) :
    ∀ name ∈ dir, isTooLong name = false := by
  have hbase : ∀ name ∈ base, isTooLong name = false :=
    fun name hname => (hfs.isName_of_entry?_eq_some h.scope hname).2
  rcases mem_pair.mp hdir with rfl | rfl
  · rw [forall_mem_append]
    exact ⟨hbase, by decide⟩
  · exact hbase

/-- Whether a report stands in one of the directories. -/
lemma exists?_eq (hdir : dir ∈ [base ++ ["reports"], base]) {name : String} (hname : Path.IsName name)
    (hshort : isTooLong name = false) (hreport : name = "report.md" ∨ endsWith name ".json" = true) :
    fs.exists? (pathOf (dir ++ [name])) = .ok (textAt fs (dir ++ [name])).isSome := by
  have hregular := h.files dir hdir name hreport
  have hstraight : fs.Straight (dir ++ [name]) := by
    refine (h.straight_dir hfs hdir).concat hname.ne_points fun target hlink => ?_
    obtain ⟨bytes, time, heq⟩ := hregular _ hlink
    cases heq
  have hshort : ∀ part ∈ dir ++ [name], isTooLong part = false := by
    rw [forall_mem_append]
    exact ⟨h.short_dir hfs hdir, by simpa using hshort⟩
  rw [hfs.exists?_pathOf hstraight hshort]
  cases hentry : fs.entry? (dir ++ [name]) with
  | none => simp [textAt, hentry]
  | some e =>
    obtain ⟨bytes, time, rfl⟩ := hregular e hentry
    simp [textAt, hentry]

end Regular

/-- A file is a part of the findings with its text. -/
lemma part_of_textAt (hfs : fs.WellFormed) (limit : ℤ) (heading : String) {place : Place} {text : String}
    (h : textAt fs place = some text) : part fs limit heading (pathOf place) = [headed limit heading text] := by
  unfold textAt at h
  split at h
  · rename_i bytes time hentry
    obtain rfl := Option.some.inj h
    rw [part, readText_of_find (hfs.find_pathOf_of_mem hentry (by simp))]
    rfl
  · cases h

/-- **The first report under a given name**, with its text. -/
lemma firstPresent_candidates (hfs : fs.WellFormed) (h : Regular fs base) (limit : ℤ)
    (hname : Path.IsName name) (hshort : isTooLong name = false)
    (hreport : name = "report.md" ∨ endsWith name ".json" = true) :
    ∃ p, firstPresent fs (candidates (pathOf base) name) = .ok p ∧ (p = none ↔ reportText fs base name = none) ∧
      (p.map (part fs limit name)).getD [] = (reportText fs base name).toList.map (headed limit name) := by
  have hcandidates : candidates (pathOf base) name =
      [pathOf (base ++ ["reports"] ++ [name]), pathOf (base ++ [name])] := by
    rw [candidates, Path.child_of_isName _ (by decide : Path.IsName "reports"), Path.child_of_isName _ hname,
      Path.child_of_isName _ hname]
    rfl
  have hinner := h.exists?_eq hfs mem_cons_self hname hshort hreport
  have houter := h.exists?_eq hfs (mem_cons_of_mem _ mem_cons_self) hname hshort hreport
  rw [hcandidates]
  simp only [firstPresent, hinner, houter, bind, Except.bind, reportText]
  cases hfirst : textAt fs (base ++ ["reports"] ++ [name]) with
  | some text =>
    refine ⟨_, rfl, by simp, ?_⟩
    rw [Option.map_some, Option.getD_some, part_of_textAt hfs limit name hfirst]
    rfl
  | none =>
    cases hsecond : textAt fs (base ++ [name]) with
    | some text => exact ⟨_, rfl, by simp, by simp [part_of_textAt hfs limit name hsecond]⟩
    | none => exact ⟨none, rfl, by simp, by simp⟩

/-! ## Exports -/

/-- An export that is there is a file. -/
lemma Regular.isSome_export_iff (h : Regular fs base) (hname : endsWith name ".json" = true) :
    (fs.entry? (base ++ ["reports"] ++ [name])).isSome ↔
      ∃ bytes time, fs.entry? (base ++ ["reports"] ++ [name]) = some (.file bytes time) := by
  rw [Option.isSome_iff_exists]
  constructor
  · rintro ⟨e, he⟩
    obtain ⟨bytes, time, rfl⟩ := h.files _ mem_cons_self name (.inr hname) e he
    exact ⟨bytes, time, he⟩
  · rintro ⟨bytes, time, he⟩
    exact ⟨_, he⟩

/-- The names in the directory of reports are those of what stands there. -/
lemma mem_list_reports (hfs : fs.WellFormed) (h : Regular fs base) (name : String) :
    name ∈ (fs.list (pathOf (base ++ ["reports"]))).toOption.getD [] ↔
      ∃ e, fs.entry? (base ++ ["reports"] ++ [name]) = some e := by
  cases hentry : fs.entry? (base ++ ["reports"]) with
  | none =>
    obtain ⟨fault, hfind, -⟩ := (h.straight_dir hfs mem_cons_self).exists_find_eq_error hentry
      (h.short_dir hfs mem_cons_self)
    have hlist : fs.list (pathOf (base ++ ["reports"])) = .error fault := by
      rw [Files.list, hfind]
      rfl
    rw [hlist]
    refine ⟨fun hname => by simp [Except.toOption] at hname, ?_⟩
    rintro ⟨e, he⟩
    have hparent := hfs.parent _ _ he
    rw [dropLast_concat, hentry] at hparent
    cases hparent
  | some e =>
    obtain rfl := h.reports e hentry
    have hlist : fs.list (pathOf (base ++ ["reports"])) =
        .ok ((fs.children (base ++ ["reports"])).map (·.1)) := by
      rw [Files.list, hfs.find_pathOf_of_mem hentry (by simp)]
      rfl
    rw [hlist, ← hfs.mem_names_iff]
    rfl

/-- The names of the exports in the directory of reports. -/
def exportNames (fs : Files) (base : Place) : List String :=
  ((fs.list (pathOf (base ++ ["reports"]))).toOption.getD []).filter (endsWith · ".json")

lemma mem_exportNames (hfs : fs.WellFormed) (h : Regular fs base) (name : String) :
    name ∈ exportNames fs base ↔ endsWith name ".json" = true ∧
      ∃ bytes time, fs.entry? (base ++ ["reports"] ++ [name]) = some (.file bytes time) := by
  rw [exportNames, mem_filter, mem_list_reports hfs h, and_comm, ← Option.isSome_iff_exists]
  exact and_congr_right h.isSome_export_iff

/-- The path and the time of an export. -/
def dated (fs : Files) (base : Place) (name : String) : Path × ℤ :=
  (pathOf (base ++ ["reports"] ++ [name]), ((fs.entry? (base ++ ["reports"] ++ [name])).map timeOf).getD 0)

lemma snd_dated {bytes : List UInt8} {time : ℤ}
    (he : fs.entry? (base ++ ["reports"] ++ [name]) = some (.file bytes time)) : (dated fs base name).2 = time := by
  rw [dated, he]
  rfl

/-- The exports are the paths of their names, sorted by their times. -/
lemma exportsIn_eq (hfs : fs.WellFormed) (h : Regular fs base) :
    exportsIn fs (pathOf (base ++ ["reports"])) =
      .ok ((((exportNames fs base).map (dated fs base)).mergeSort fun a b => b.2 ≤ a.2).map (·.1)) := by
  have hdated : ((exportNames fs base).map (Files.extend (pathOf (base ++ ["reports"])))).mapM
      (fun p => do return (p, ← changedAt fs p)) =
        (.ok ((exportNames fs base).map (dated fs base)) : Except Fault (List (Path × ℤ))) := by
    rw [Outcome.mapM_eq_ok_iff, map_map, map_map]
    refine map_congr_left fun name hname => ?_
    obtain ⟨-, bytes, time, he⟩ := (mem_exportNames hfs h name).mp hname
    rw [Function.comp_apply, extend_pathOf, changedAt, hfs.find_pathOf_of_mem he (by simp), Function.comp_apply,
      dated, he]
    rfl
  rw [exportsIn]
  exact congrArg (· >>= _) hdated

/-- **The exports in the directory of reports**, of which the first was changed last. -/
lemma exportsIn_spec (hfs : fs.WellFormed) (h : Regular fs base) :
    ∃ paths, exportsIn fs (pathOf (base ++ ["reports"])) = .ok paths ∧
      (paths = [] ↔ ¬ ∃ name, endsWith name ".json" = true ∧ (fs.entry? (base ++ ["reports"] ++ [name])).isSome) ∧
      ∀ newest rest, paths = newest :: rest → IsNewest fs base newest := by
  refine ⟨_, exportsIn_eq hfs h, ?_, ?_⟩
  · rw [map_eq_nil_iff, ← length_eq_zero_iff, length_mergeSort, length_eq_zero_iff,
      map_eq_nil_iff, eq_nil_iff_forall_not_mem, ← not_exists, not_iff_not]
    refine exists_congr fun name => (mem_exportNames hfs h name).trans ?_
    exact and_congr_right fun hjson => (h.isSome_export_iff hjson).symm
  · intro newest rest hpaths
    obtain ⟨first, others, hsorted, rfl, -⟩ := map_eq_cons_iff.mp hpaths
    have hpairwise : (first :: others).Pairwise fun a b => decide (b.2 ≤ a.2) = true := by
      rw [← hsorted]
      exact pairwise_mergeSort (by simp; omega) (by simp; omega) _
    have hmem : ∀ x, x ∈ first :: others ↔ ∃ name ∈ exportNames fs base, dated fs base name = x := by
      intro x
      rw [← hsorted, mem_mergeSort, mem_map]
    obtain ⟨name, hname, rfl⟩ := (hmem first).mp mem_cons_self
    obtain ⟨hjson, bytes, time, he⟩ := (mem_exportNames hfs h name).mp hname
    refine ⟨name, bytes, time, rfl, hjson, he, fun other bytes' time' hother he' => ?_⟩
    have hin := (hmem _).mpr ⟨other, (mem_exportNames hfs h other).mpr ⟨hother, bytes', time', he'⟩, rfl⟩
    rcases mem_cons.mp hin with heq | hlater
    · rw [← snd_dated he, ← snd_dated he', heq]
    · rw [← snd_dated he, ← snd_dated he']
      exact of_decide_eq_true ((pairwise_cons.mp hpairwise).1 _ hlater)

/-! ## Findings -/

/-- The export that is found: the report under the usual name, or else all exports. -/
def exportOf : Option Path → List Path → Export
  | some p, _ => .one p
  | none, [] => .none
  | none, paths => .several paths

lemma find_eq {scope : Path} (hscope : fs.resolve scope = .ok base) {markdown json : Option Path} {paths : List Path}
    (hmarkdown : firstPresent fs (candidates (pathOf base) "report.md") = .ok markdown)
    (hjson : firstPresent fs (candidates (pathOf base) "report.json") = .ok json)
    (hpaths : exportsIn fs (pathOf (base ++ ["reports"])) = .ok paths) :
    find fs scope = .ok ⟨markdown, exportOf json paths⟩ := by
  have hreports : (pathOf base).child "reports" = pathOf (base ++ ["reports"]) :=
    Path.child_of_isName _ (by decide)
  rw [find, hscope]
  simp only [bind, Except.bind, hmarkdown, hjson, hreports, hpaths]
  cases json <;> cases paths <;> rfl

/-- **The findings have a text unless the exports are orphaned.** Otherwise the exports are found, the newest first, but
there is no text of them. -/
theorem findings_unless_orphaned (hfs : fs.WellFormed) {scope : Path} (hscope : fs.resolve scope = .ok base)
    (h : Regular fs base) (limit : ℤ) :
    ((∃ text, findings fs scope limit = .ok text) ↔ ¬ Orphaned fs base) ∧
      (¬ Orphaned fs base → findings fs scope limit = .ok (Text.trim (String.intercalate "\n\n"
        ((reportText fs base "report.md").toList.map (headed limit "report.md") ++
          (reportText fs base "report.json").toList.map (headed limit "report.json"))))) ∧
      (Orphaned fs base → findings fs scope limit = .error (.noAttribute "list" "exists") ∧
        ∃ markdown newest rest, find fs scope = .ok ⟨markdown, .several (newest :: rest)⟩ ∧ IsNewest fs base newest) := by
  obtain ⟨markdown, hmarkdown, -, hfirst⟩ :=
    firstPresent_candidates hfs h limit (by decide : Path.IsName "report.md") (by decide) (.inl rfl)
  obtain ⟨json, hjson, hnone, hsecond⟩ :=
    firstPresent_candidates hfs h limit (by decide : Path.IsName "report.json") (by decide) (.inr (by decide))
  obtain ⟨paths, hpaths, hempty, hnewest⟩ := exportsIn_spec hfs h
  have hfind := find_eq hscope hmarkdown hjson hpaths
  have htext : ¬ Orphaned fs base → findings fs scope limit = .ok (Text.trim (String.intercalate "\n\n"
      ((reportText fs base "report.md").toList.map (headed limit "report.md") ++
        (reportText fs base "report.json").toList.map (headed limit "report.json")))) := by
    intro hkept
    rw [findings, hfind, ← hfirst, ← hsecond]
    cases json with
    | some p => rfl
    | none =>
      obtain rfl : paths = [] := hempty.mpr fun hexport => hkept ⟨hnone.mp rfl, hexport⟩
      rfl
  have herror : Orphaned fs base → findings fs scope limit = .error (.noAttribute "list" "exists") ∧
      ∃ markdown newest rest, find fs scope = .ok ⟨markdown, .several (newest :: rest)⟩ ∧ IsNewest fs base newest := by
    rintro ⟨hno, hexport⟩
    obtain rfl := hnone.mpr hno
    obtain ⟨newest, rest, rfl⟩ := List.exists_cons_of_ne_nil fun hnil => hempty.mp hnil hexport
    refine ⟨?_, markdown, newest, rest, hfind, hnewest newest rest rfl⟩
    rw [findings, hfind]
    rfl
  refine ⟨⟨?_, fun hkept => ⟨_, htext hkept⟩⟩, htext, herror⟩
  rintro ⟨text, hok⟩ horphaned
  cases (herror horphaned).1.symm.trans hok

/-- A repository with two exports, of which the second was changed last. -/
def exportedTwice : Files :=
  ⟨[(["r"], .folder), (["r", "reports"], .folder), (["r", "reports", "old.json"], .file [49] 1),
    (["r", "reports", "new.json"], .file [50] 2)], []⟩

lemma wellFormed_exportedTwice : exportedTwice.WellFormed where
  toRooted := Rooted.of_entries (by decide) (by decide)
  distinct := by decide
  ne_nil := by decide
  named := by decide

lemma regular_exportedTwice : Regular exportedTwice ["r"] where
  scope := rfl
  reports _ he := (Option.some.inj he).symm
  files dir hdir name hname e he := by
    have hmem := mem_of_entry?_eq_some (by simp) he
    simp only [exportedTwice, mem_cons, Prod.mk.injEq, not_mem_nil, or_false] at hmem
    rcases hmem with ⟨hplace, -⟩ | ⟨hplace, -⟩ | ⟨-, rfl⟩ | ⟨-, rfl⟩
    · rcases mem_pair.mp hdir with rfl | rfl <;> simp at hplace
    · rcases mem_pair.mp hdir with rfl | rfl
      · simp at hplace
      · obtain rfl : name = "reports" := by simpa using hplace
        exact absurd hname (by decide)
    · exact ⟨_, _, rfl⟩
    · exact ⟨_, _, rfl⟩

/-- Both exports are found, but there is no text of them. -/
theorem findings_exportedTwice :
    findings exportedTwice (.ofString "r") 100 = .error (.noAttribute "list" "exists") ∧
      ∃ markdown newest rest, find exportedTwice (.ofString "r") = .ok ⟨markdown, .several (newest :: rest)⟩ ∧
        IsNewest exportedTwice ["r"] newest := by
  have hscope : exportedTwice.resolve (.ofString "r") = .ok ["r"] := by cbv
  have horphaned : Orphaned exportedTwice ["r"] := ⟨by decide, "old.json", by decide, rfl⟩
  exact (findings_unless_orphaned wellFormed_exportedTwice hscope regular_exportedTwice 100).2.2 horphaned

end Artifacts

end CodeAudit
