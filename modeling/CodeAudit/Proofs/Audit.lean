import CodeAudit.Proofs.Analysis.Run
import CodeAudit.Proofs.Files.Change
import CodeAudit.Proofs.Session
import CodeAudit.Proofs.Source.Rescan

/-!
# What an audit lists and what it analyses

An audit lists the files of a repository, starts a report on them, and then analyses the repository, for which it scans
it again. Starting the report adds directories and writes one file. So the files that are listed are those that are
analysed, unless the limit of size is zero or the report itself lies in the repository.

## Main definitions

* `Audit.Started` — what starting a report leaves.
* `Audit.SameFiles` — the same files were listed and analysed.

## Main results

* `Audit.same_files_iff` — when an audit lists and analyses the same files.
-/

namespace CodeAudit

open FileTask Scan Files Analysis

namespace Files

/-- A tree stays without links while paths lead to their places. -/
lemma Guides.linkFree {before after : Files} (h : Guides before after) (hlinks : before.LinkFree) : after.LinkFree :=
  fun place => h.ne_link place (hlinks place)

end Files

namespace Audit

variable {out report : Path} {infos : List FileInfo} {before after : Files} {analysis : Analysis}

/-- **What starting a report leaves**: a tree without links that can stand on a disk, with the same files but for the
report. -/
structure Started (before : Files) (report : Place) (after : Files) : Prop where
  wellFormed : after.WellFormed
  linkFree : after.LinkFree
  here : after.here = before.here
  kept : ∀ place, place ≠ report → ∀ bytes time,
    after.entry? place = some (.file bytes time) ↔ before.entry? place = some (.file bytes time)

/-- Starting a report makes its directory and writes it there. -/
lemma of_start (h : (start out infos).runOn before = (.ok report, after)) :
    ∃ first second text, before.ensureFolders out = (.ok (), first) ∧ first.ensureFolders out = (.ok (), second) ∧
      second.write (out.child "report.md") text = .ok after ∧ report = out.child "report.md" := by
  obtain ⟨out', _, hfolder, h⟩ := runOn_bind_eq_ok.mp h
  obtain ⟨_, first, hfirst, hpure⟩ := runOn_bind_eq_ok.mp hfolder
  obtain ⟨hout, rfl⟩ := Prod.mk.inj hpure
  obtain rfl := Except.ok.inj hout
  obtain ⟨_, second, hsecond, h⟩ := runOn_bind_eq_ok.mp h
  obtain ⟨text, _, htext, h⟩ := runOn_bind_eq_ok.mp h
  obtain ⟨-, rfl⟩ := Prod.mk.inj htext
  obtain ⟨_, _, hwrite, h⟩ := runOn_bind_eq_ok.mp h
  obtain ⟨hreport, rfl⟩ := Prod.mk.inj h
  exact ⟨first, second, text, hfirst, hsecond, runOn_changing_eq_ok.mp hwrite, (Except.ok.inj hreport).symm⟩

/-- The report stands in its directory. -/
lemma report_eq (out : Path) : out.child "report.md" = ⟨out.root, out.names ++ ["report.md"]⟩ := by
  have hname : Path.ofString "report.md" = ⟨"", ["report.md"]⟩ := by decide +kernel
  rw [Path.child, hname, Path.join]
  rfl

/-- **Starting a report writes one file and leaves all others.** -/
lemma started_of_start (hfs : before.WellFormed)
    (hlinks : before.LinkFree) (hout : ∀ name ∈ out.names, name ≠ "" ∧ name ≠ "." ∧ '/' ∉ name.toList)
    (h : (start out infos).runOn before = (.ok report, after)) :
    ∃ base, after.follow out = .ok base ∧ Started before (base ++ ["report.md"]) after := by
  obtain ⟨first, second, text, hfirst, hsecond, hwrite, -⟩ := of_start h
  have hmade := made_ensureFolders before out
  have hwf := hfs.ensureFolders hout
  rw [hfirst] at hmade hwf
  have hmade' := made_ensureFolders first out
  have hwf' := hwf.ensureFolders hout
  rw [hsecond] at hmade' hwf'
  have hgrows := hmade.grows.trans hmade'.grows
  have hlinks' := hgrows.guides.linkFree hlinks
  -- the directory is there, so the report is written into it
  obtain ⟨base, hbase, hfolder⟩ := hmade'.leads hwf.toRooted rfl
  have hname : Path.IsName "report.md" ∧ isTooLong "report.md" = false := by decide
  have hplace : second.follow (out.child "report.md") = .ok (base ++ ["report.md"]) := by
    rw [report_eq]
    exact followFrom_concat hbase hfolder (by decide) hname.2 (hlinks' _)
  obtain ⟨place, old, hplace', hne, hold, rfl⟩ := of_writeAt (Outcome.mapError_eq_ok.mp hwrite)
  obtain rfl : base ++ ["report.md"] = place := Except.ok.inj (hplace.symm.trans hplace')
  have hguides := guides_put hne (hold.imp (·.1) fun ⟨time, hfile⟩ => ⟨old, time, hfile⟩) (Text.encode text)
    Files.now
  refine ⟨base, hguides.follow_eq hbase, ?_, hguides.linkFree hlinks', hguides.here.trans hgrows.here, ?_⟩
  · refine hwf'.put hfolder hname.1 hname.2 fun hold' => ?_
    rcases hold with ⟨hnone, -⟩ | ⟨time, hfile⟩
    · simp [hnone] at hold'
    · simp [hfile] at hold'
  · intro q hq bytes time
    rw [entry?_put _ hne, if_neg hq]
    exact hgrows.file_iff

/-! ## Two scans of one audit -/

/-- The options with which files within a scope are listed, for a whole limit. -/
def Scope.options (scope : Scope) (limit : ℤ) : Options where
  wanted := scope.wanted
  unwanted := scope.unwanted
  maxBytes := limit

/-- The same files were listed and analysed, and they are counted alike. -/
structure SameFiles (infos : List FileInfo) (analysis : Analysis) : Prop where
  paths : ∀ p, p ∈ infos.map (·.path) ↔ p ∈ analysis.modules.map (·.path)
  count : infos.length = analysis.filesAnalyzed

variable {fs : Files} {rules : Datum} {scope : Scope} {limit : ℤ}

/-- With a whole limit the files within a scope are those of a scan. -/
lemma files_eq (hlimit : scope.maxBytes = .int limit) (fs : Files) :
    files fs scope = scan fs scope.root (scope.options limit) := by
  rw [files, hlimit]
  rfl

/-- The analysis of a scope looks at the files of the second scan. -/
lemma analysis_files_eq (hlimit : scope.maxBytes = .int limit) {request : Request}
    (hrequest : Audit.request rules scope = .ok request) (fs : Files) (root : Path) :
    Analysis.files fs root request = scan fs root (again (scope.options limit)) := by
  obtain ⟨section_, -, h⟩ := Outcome.bind_eq_ok.mp hrequest
  obtain ⟨warnAt, -, h⟩ := Outcome.bind_eq_ok.mp h
  obtain ⟨section', -, h⟩ := Outcome.bind_eq_ok.mp h
  obtain ⟨entries, -, h⟩ := Outcome.bind_eq_ok.mp h
  obtain rfl := Except.ok.inj h
  have hmaxBytes : (scope.maxBytes.orElse (.int usualMaxBytes)).toInt =
      .ok (again (scope.options limit)).maxBytes := by
    rw [hlimit, Datum.orElse, Datum.truthy]
    by_cases hzero : limit = 0
    · simp [hzero, again, Scope.options, Datum.toInt]
    · simp [hzero, again, Scope.options, Datum.toInt]
  rw [Analysis.files, hmaxBytes]
  rfl

/-- An analysis by rules only looks at the files. -/
lemma of_analyse (h : (analyse rules scope).runOn fs = (.ok analysis, after)) :
    after = fs ∧ ∃ request, Audit.request rules scope = .ok request ∧
      Analysis.run fs scope.root request = .ok analysis := by
  obtain ⟨request, _, hrequest, h⟩ := runOn_bind_eq_ok.mp h
  obtain ⟨hok, rfl⟩ := Prod.mk.inj hrequest
  obtain ⟨hrun, rfl⟩ := Prod.mk.inj h
  exact ⟨rfl, request, hok, hrun⟩

/-! ## Files that are listed and analysed -/

/-- Files that are listed once each and are those of an analysis are counted alike. -/
lemma SameFiles.of_paths (hnodup : (infos.map (·.path)).Nodup)
    (h : ∀ p, p ∈ infos.map (·.path) ↔ p ∈ analysis.modules.map (·.path)) : SameFiles infos analysis := by
  refine ⟨h, ?_⟩
  have hperm : (infos.map (·.path)).Perm (analysis.modules.map (·.path)).eraseDups := by
    refine (List.perm_ext_iff_of_nodup hnodup (Sequence.nodup_eraseDups _)).mpr fun p => ?_
    rw [List.mem_eraseDups]
    exact h p
  simpa [filesAnalyzed] using hperm.length_eq

/-- **When an audit lists and analyses the same files**: if the limit of size does not grow from zero to the usual one
for any file, and the report is not listed by one of the two scans only. -/
lemma same_files_iff {after' : Files} (hfs : before.WellFormed) (hlinks : before.LinkFree)
    (hout : ∀ name ∈ out.names, name ≠ "" ∧ name ≠ "." ∧ '/' ∉ name.toList) (hlimit : scope.maxBytes = .int limit)
    (hfiles : files before scope = .ok infos) (hne : infos ≠ [])
    (hstart : (start out infos).runOn before = (.ok report, after))
    (hanalyse : (analyse rules scope).runOn after = (.ok analysis, after')) :
    ∃ top base, before.resolve scope.root = .ok top ∧ after.follow out = .ok base ∧
      (SameFiles infos analysis ↔ ¬ Widens before top (scope.options limit) (base ++ ["report.md"]) ∧
        ¬ Shifts before after top (scope.options limit) (base ++ ["report.md"])) := by
  obtain ⟨base, hbase, hstarted⟩ := started_of_start hfs hlinks hout hstart
  obtain ⟨-, request, hrequest, hrun⟩ := of_analyse hanalyse
  obtain ⟨top, infos', hstages⟩ := stages_of_run hrun
  have hroot : before.resolve scope.root = .ok top := by
    rw [← hlinks.resolve_eq hstarted.linkFree hstarted.here]
    exact hstages.resolved
  have hroot' : after.resolve (pathOf top) = .ok top :=
    (hstarted.wellFormed.straight_resolve hstages.resolved).resolve_pathOf
  have hscan : scan before scope.root (scope.options limit) = .ok infos := by
    rw [← files_eq hlimit, hfiles]
  have hscan' : scan after (pathOf top) (again (scope.options limit)) = .ok infos' := by
    rw [← analysis_files_eq hlimit hrequest, hstages.scanned]
  have hwanted : (scope.options limit).wanted ≠ [] := by
    obtain ⟨info, hinfo⟩ := List.exists_mem_of_ne_nil _ hne
    obtain ⟨names, -, hadmitted, -⟩ :=
      (mem_map_path_iff hfs (hlinks.below top) hroot hscan).mp (List.mem_map_of_mem hinfo)
    intro hnil
    simpa [hnil, Shell.fitsAny] using hadmitted.wanted
  have hignore : top ++ [".gitignore"] ≠ base ++ ["report.md"] := by
    intro heq
    have hlast := List.append_inj_right' heq rfl
    simp at hlast
  refine ⟨top, base, hroot, hbase, ?_⟩
  rw [← same_paths_iff hfs hstarted.wellFormed (hlinks.below top) (hstarted.linkFree.below top) hroot hroot' hignore
    hstarted.kept rfl hwanted hscan hscan', ← Modules.map_path_of_readAll hstages.read]
  exact ⟨SameFiles.paths, .of_paths (nodup_map_path_below hfs (hlinks.below top) hroot hscan)⟩

end Audit

end CodeAudit
