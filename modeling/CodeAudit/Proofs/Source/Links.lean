import CodeAudit.Proofs.Source.Contents

/-!
# Links in a scan

A scan that does not go through links to directories still follows links to files: it lists the file to which a link
leads, under the path of that file. Directories are pruned on the way to the link and not on the way to the file. So a
list can name a file below a closed directory, one outside of the repository, or one file twice. This module says when
it does.

## Main definitions

* `Scan.Confined` — a list of different files inside of the repository and outside of closed directories.
* `Scan.Stray` — a link that leads a scan astray.

## Main results

* `Scan.nodup_map_path_iff` — when no file is listed twice.
* `Scan.confined_iff_no_stray` — a list is confined exactly if no link leads the scan astray.
-/

namespace CodeAudit.Scan

open Files

/-- What a scan meets under some names leads to a place, and the file at this place is listed. -/
structure Tells (fs : Files) (top : Place) (options : Options) (names : List String) (place : Place) : Prop where
  meets : Meets fs top options names
  leads : fs.resolve (pathOf (top ++ names)) = .ok place
  listed : ∃ info, inspect? fs top (rules fs (pathOf top) options) options place = .ok (some info)

/-- A path from the top to a file, through no closed directory. -/
def Inside (fs : Files) (top : Place) (p : Path) : Prop :=
  ∃ names bytes time, p = ⟨"", names⟩ ∧ fs.entry? (top ++ names) = some (.file bytes time) ∧
    ∀ dir ∈ names.dropLast, dir ∉ closedFolders

/-- **A list of different files inside of the repository**, none of them in a closed directory. -/
structure Confined (fs : Files) (top : Place) (infos : List FileInfo) : Prop where
  distinct : (infos.map (·.path)).Nodup
  inside : ∀ info ∈ infos, Inside fs top info.path

/-- **A link that leads a scan astray**: the file that is listed for it stands outside of the repository or in a closed
directory, or it is listed for something else as well. -/
structure Stray (fs : Files) (top : Place) (options : Options) (names : List String) (place : Place) : Prop where
  link : ∃ target, fs.entry? (top ++ names) = some (.link target)
  tells : Tells fs top options names place
  astray : ¬ top <+: place ∨ (∃ dir ∈ (place.drop top.length).dropLast, dir ∈ closedFolders) ∨
    ∃ names', names' ≠ names ∧ Tells fs top options names' place

variable {fs : Files} {top : Place} {options : Options}

/-- A file that is listed stands at its place. -/
lemma file_of_inspect? {rules : List Ignore.Rule} {place : Place} (hplace : fs.Straight place) {info : FileInfo}
    (h : inspect? fs top rules options place = .ok (some info)) :
    ∃ bytes time, fs.entry? place = some (.file bytes time) := by
  obtain ⟨-, -, text, htext⟩ := of_inspect? h
  exact hplace.file_of_readText htext

/-- On the way to what a scan meets, no directory is closed. -/
lemma Meets.not_closed {names : List String} (h : Meets fs top options names) :
    ∀ dir ∈ names.dropLast, dir ∉ closedFolders :=
  forall_above_iff.mp fun dir hdir hnil hne => (h.reached dir hdir hnil hne).1

/-- What is listed for anything but a link is the file that is met itself. -/
lemma Tells.place_eq (hfs : fs.WellFormed) {names : List String} {place : Place} (h : Tells fs top options names place)
    (hlink : ¬ ∃ target, fs.entry? (top ++ names) = some (.link target)) : place = top ++ names := by
  obtain ⟨e, he⟩ := h.meets.stands
  have hstraight := hfs.straight_of_mem he fun target heq => hlink ⟨target, he.trans (congrArg some heq)⟩
  exact Except.ok.inj (h.leads.symm.trans hstraight.resolve_pathOf)

section Scan

variable (hfs : fs.WellFormed) (htop : fs.Straight top) (hlinks : options.throughLinks = true → fs.LinkFreeBelow top)

include hfs htop hlinks

/-- What is met and listed is what tells of a file. -/
lemma look?_met_iff_tells {x : Path × String} {info : FileInfo} :
    x ∈ met fs top options ∧ look? fs top options x = .ok (some info) ↔
      ∃ way name place, x = (pathOf (top ++ way), name) ∧ Tells fs top options (way ++ [name]) place ∧
        inspect? fs top (rules fs (pathOf top) options) options place = .ok (some info) := by
  rw [look?, Outcome.bind_eq_ok, mem_met_iff_meets hfs htop hlinks]
  constructor
  · rintro ⟨⟨way, name, rfl, hmeets⟩, place, hplace, hinfo⟩
    rw [extend_pathOf, List.append_assoc] at hplace
    exact ⟨way, name, place, rfl, ⟨hmeets, hplace, info, hinfo⟩, hinfo⟩
  · rintro ⟨way, name, place, rfl, htells, hinfo⟩
    refine ⟨⟨way, name, rfl, htells.meets⟩, place, ?_, hinfo⟩
    rw [extend_pathOf, List.append_assoc]
    exact htells.leads

variable {root : Path} {infos : List FileInfo} (hroot : fs.resolve root = .ok top)
  (h : scan fs root options = .ok infos)

include hroot h

/-- **What a scan lists** are the files to which leads what it meets. -/
lemma mem_scan_iff_tells (info : FileInfo) :
    info ∈ infos ↔ ∃ names place, Tells fs top options names place ∧
      inspect? fs top (rules fs (pathOf top) options) options place = .ok (some info) := by
  have hlook : info ∈ infos ↔ ∃ x, x ∈ met fs top options ∧ look? fs top options x = .ok (some info) := by
    simp only [mem_scan_iff hroot h, look?, Outcome.bind_eq_ok]
  simp only [hlook, look?_met_iff_tells hfs htop hlinks]
  constructor
  · rintro ⟨-, way, name, place, -, htells, hinfo⟩
    exact ⟨_, place, htells, hinfo⟩
  · rintro ⟨names, place, htells, hinfo⟩
    obtain rfl | ⟨way, name, rfl⟩ := List.eq_nil_or_concat' names
    · exact absurd rfl htells.meets.below
    · exact ⟨_, way, name, place, rfl, htells, hinfo⟩

/-- **No file is listed twice** exactly if different things that the scan meets lead to different files.

**Proof sketch.** The walk meets nothing twice, and the path that is listed tells the place. So two equal paths in the
list come from two different things that lead to one place. -/
lemma nodup_map_path_iff : (infos.map (·.path)).Nodup ↔ ∀ names names' place,
    Tells fs top options names place → Tells fs top options names' place → names = names' := by
  rw [scan_eq options hroot] at h
  obtain ⟨found, hfound, h⟩ := Outcome.bind_eq_ok.mp h
  obtain rfl := Except.ok.inj h
  have hperm := (List.mergeSort_perm (found.filterMap id) fun a b => !(b.path.toString < a.path.toString)).map
    FileInfo.path
  rw [hperm.nodup_iff, List.Nodup, List.pairwise_map, List.pairwise_filterMap, Outcome.pairwise_mapM_iff hfound]
  constructor
  · intro hpairs names names' place htells htells'
    obtain ⟨info, hinfo⟩ := htells.listed
    obtain rfl | ⟨way, name, rfl⟩ := List.eq_nil_or_concat' names
    · exact absurd rfl htells.meets.below
    obtain rfl | ⟨way', name', rfl⟩ := List.eq_nil_or_concat' names'
    · exact absurd rfl htells'.meets.below
    obtain ⟨hx, hlook⟩ := (look?_met_iff_tells hfs htop hlinks).mpr ⟨way, name, place, rfl, htells, hinfo⟩
    obtain ⟨hy, hlook'⟩ := (look?_met_iff_tells hfs htop hlinks).mpr ⟨way', name', place, rfl, htells', hinfo⟩
    by_contra hne
    have hdiffer : (pathOf (top ++ way), name) ≠ (pathOf (top ++ way'), name') := by
      simpa [pathOf] using hne
    refine @List.Pairwise.forall _ _ _ ⟨fun x y hxy => ?_⟩ hpairs _ hx _ hy hdiffer _ _ hlook hlook' info rfl info rfl rfl
    exact fun o o' ho ho' a ha b hb heq => hxy o' o ho' ho b hb a ha heq.symm
  · intro hsame
    refine (nodup_visit_straight hfs htop hlinks).pairwise_of_forall_ne fun x hx y hy hne => ?_
    rintro o o' ho ho' a rfl b rfl heq
    obtain ⟨way, name, place, rfl, htells, hinfo⟩ := (look?_met_iff_tells hfs htop hlinks).mp ⟨hx, ho⟩
    obtain ⟨way', name', place', rfl, htells', hinfo'⟩ := (look?_met_iff_tells hfs htop hlinks).mp ⟨hy, ho'⟩
    have hplace : place = place' := by
      refine relativeTo_injective top ?_
      rw [← path_of_inspect? hinfo, ← path_of_inspect? hinfo', heq]
    have hnames := hsame _ _ _ htells (hplace ▸ htells')
    exact hne (by simpa [pathOf] using hnames)

end Scan

/-- **A list is confined exactly if no link leads the scan astray.**

**Proof sketch.** What is listed for anything but a link is the file that is met itself, which lies below the top and
behind open directories only; two different ones have different places. So whatever is wrong with a list comes from a
link, and every link that leads astray makes something wrong. -/
theorem confined_iff_no_stray (hfs : fs.WellFormed) (hthrough : options.throughLinks = false) {root : Path}
    (hroot : fs.resolve root = .ok top) {infos : List FileInfo} (h : scan fs root options = .ok infos) :
    Confined fs top infos ↔ ∀ names place, ¬ Stray fs top options names place := by
  have htop := hfs.straight_resolve hroot
  have hlinks : options.throughLinks = true → fs.LinkFreeBelow top := by simp [hthrough]
  have hmem := mem_scan_iff_tells hfs htop hlinks hroot h
  have hnodup := nodup_map_path_iff hfs htop hlinks hroot h
  constructor
  · intro hconfined names place hstray
    obtain ⟨info, hinfo⟩ := hstray.tells.listed
    obtain ⟨below, bytes, time, hpath, -, hopen⟩ := hconfined.inside info ((hmem info).mpr ⟨_, _, hstray.tells, hinfo⟩)
    obtain rfl : place = top ++ below := by
      refine relativeTo_injective top ?_
      rw [← path_of_inspect? hinfo, hpath, relativeTo_append]
    rcases hstray.astray with hout | ⟨dir, hdir, hclosed⟩ | ⟨names', hne, htells'⟩
    · exact hout (List.prefix_append _ _)
    · rw [List.drop_left] at hdir
      exact hopen dir hdir hclosed
    · exact hne (hnodup.mp hconfined.distinct _ _ _ htells' hstray.tells)
  · intro hstray
    refine ⟨hnodup.mpr fun names names' place htells htells' => ?_, fun info hinfo => ?_⟩
    · by_contra hne
      by_cases hlink : ∃ target, fs.entry? (top ++ names) = some (.link target)
      · exact hstray names place ⟨hlink, htells, .inr (.inr ⟨names', Ne.symm hne, htells'⟩)⟩
      by_cases hlink' : ∃ target, fs.entry? (top ++ names') = some (.link target)
      · exact hstray names' place ⟨hlink', htells', .inr (.inr ⟨names, hne, htells⟩)⟩
      · exact hne (List.append_cancel_left ((htells.place_eq hfs hlink).symm.trans (htells'.place_eq hfs hlink')))
    · obtain ⟨names, place, htells, hinspect⟩ := (hmem info).mp hinfo
      obtain ⟨bytes, time, hfile⟩ := file_of_inspect? (hfs.straight_resolve htells.leads) hinspect
      rw [Inside, path_of_inspect? hinspect]
      by_cases hlink : ∃ target, fs.entry? (top ++ names) = some (.link target)
      · have hkept := not_or.mp fun hastray => hstray names place ⟨hlink, htells, hastray⟩
        obtain ⟨below, rfl⟩ := not_not.mp hkept.1
        refine ⟨below, bytes, time, relativeTo_append top below, hfile, fun dir hdir hclosed => ?_⟩
        exact hkept.2 (.inl ⟨dir, by rwa [List.drop_left], hclosed⟩)
      · obtain rfl := htells.place_eq hfs hlink
        exact ⟨names, bytes, time, relativeTo_append top names, hfile, htells.meets.not_closed⟩

/-- A repository with a link to a file in a directory that is never entered. -/
def oneLinked : Files :=
  ⟨[(["r"], .folder), (["r", "l.py"], .link "venv/b.py"), (["r", "venv"], .folder),
    (["r", "venv", "b.py"], .file [50] 0)], ["r"]⟩

/-- The file in the closed directory is listed for the link. -/
theorem not_confined_oneLinked :
    ∃ infos, scan oneLinked ⟨"", []⟩ { wanted := ["*.py"], unwanted := [], maxBytes := 100 } = .ok infos ∧
      ¬ Confined oneLinked ["r"] infos := by
  have hfs : oneLinked.WellFormed :=
    { toRooted := Files.Rooted.of_entries (by decide) (by decide)
      distinct := by decide
      ne_nil := by decide
      named := by decide }
  have hroot : oneLinked.resolve ⟨"", []⟩ = .ok ["r"] := by cbv
  have hdone : (scan oneLinked ⟨"", []⟩
      { wanted := ["*.py"], unwanted := [], maxBytes := 100 }).toOption.isSome = true := by
    decide +kernel
  obtain ⟨infos, hinfos⟩ := Option.isSome_iff_exists.mp hdone
  have hscan := Outcome.eq_ok_of_toOption hinfos
  refine ⟨infos, hscan, fun hconfined => ?_⟩
  refine (confined_iff_no_stray hfs rfl hroot hscan).mp hconfined ["l.py"] ["r", "venv", "b.py"] ?_
  refine ⟨⟨"venv/b.py", by decide⟩, ⟨⟨by simp, ⟨_, rfl⟩, by cbv, fun dir hdir hnil hne => ?_⟩, by cbv, _, by cbv⟩, ?_⟩
  · rcases List.prefix_cons_iff.mp hdir with rfl | ⟨rest, rfl, hrest⟩
    · exact absurd rfl hnil
    · exact absurd (by rw [List.prefix_nil.mp hrest]) hne
  · exact .inr (.inl ⟨"venv", by decide, by decide⟩)

end CodeAudit.Scan
