import CodeAudit.Proofs.Checkout

/-!
# Repositories of the same name

A repository that is not here is copied to a directory that only the last part of its address names, and a directory
that is already there is taken for the copy. Two repositories whose addresses name one directory are therefore not told
apart: the second is taken to be where the first is, and is never copied.

## Main results

* `Checkout.runOn_locate_of_absent` — what is done for a repository that is not here.
* `Checkout.copied_apart_iff` — when two repositories go to two directories.
-/

namespace CodeAudit.Checkout

open CodeAudit.Action

/-- There is no slash in the stem of a path that is read. -/
lemma slash_not_mem_stem (source : String) : '/' ∉ (Path.ofString source).stem.toList := by
  have hname : '/' ∉ (Path.ofString source).name.toList := by
    rw [Path.name]
    cases hlast : (Path.ofString source).names.getLast? with
    | none => decide
    | some name => exact (Path.of_mem_names_ofString (List.mem_of_getLast? hlast)).2.2
  simp only [Path.stem, Path.splitName]
  split_ifs
  · rw [String.toList_ofList]
    exact fun hmem => hname (List.mem_of_mem_take hmem)
  · exact hname

/-- **A directory for a repository has a proper name**: it does not end in a point. -/
lemma isName_placeName (source : String) : Path.IsName (placeName source) := by
  simp only [placeName]
  split_ifs with hempty
  · decide
  rw [List.isEmpty_iff] at hempty
  have hlast := List.rdropWhile_last_not (· == '.') (Path.ofString source).stem.toList hempty
  have hslash : ∀ c ∈ Text.dropEndWhile (· == '.') (Path.ofString source).stem.toList, c ≠ '/' := by
    rintro c hc rfl
    exact slash_not_mem_stem source ((List.rdropWhile_prefix (· == '.') _).subset hc)
  change ¬ (((Text.dropEndWhile (· == '.') (Path.ofString source).stem.toList).getLast hempty == '.') = true) at hlast
  generalize Text.dropEndWhile (· == '.') (Path.ofString source).stem.toList = cs at hempty hlast hslash ⊢
  have hne : ∀ name : String, name.toList.getLast? = some '.' → String.ofList cs ≠ name := by
    rintro _ hpoint rfl
    rw [String.toList_ofList, List.getLast?_eq_getLast_of_ne_nil hempty] at hpoint
    simp [Option.some.inj hpoint] at hlast
  exact ⟨by simpa using hempty, hne "." (by decide), hne ".." (by decide),
    fun hmem => hslash '/' (by simpa using hmem) rfl⟩

/-- Different names lead to different directories. -/
lemma child_placeName_inj (work : Path) {first second : String} :
    work.child (placeName first) = work.child (placeName second) ↔ placeName first = placeName second := by
  rw [Path.child_of_isName work (isName_placeName first), Path.child_of_isName work (isName_placeName second)]
  simp [Files.extend]

variable {work : Path} {around : Surroundings} {s after : Session} {source first second : String}

/-- **A repository that is not here** is taken to be in the directory of its name, and is copied to it exactly if
nothing is there. -/
lemma runOn_locate_of_absent (habsent : s.files.exists? (.ofString source) = .ok false) {p : Path} :
    (locate source work).runOn around s = (.ok p, after) ↔ work.child (placeName source) = p ∧
      (s.files.exists? p = .ok true ∧ after = s ∨
        s.files.exists? p = .ok false ∧ (Action.run (cloneWords source none p)).runOn around s = (.ok (), after)) := by
  have hlook : (reading (·.exists? (.ofString source))).runOn around s = (.ok false, s) :=
    runOn_reading_eq_ok.mpr ⟨habsent, rfl⟩
  rw [locate, runOn_bind_ok hlook, if_neg Bool.false_ne_true, runOn_bind_eq_ok]
  constructor
  · rintro ⟨taken, between, hlook, hrest⟩
    obtain ⟨hlook, rfl⟩ := runOn_reading_eq_ok.mp hlook
    cases taken with
    | true =>
      obtain ⟨hp, rfl⟩ := Prod.mk.inj hrest
      obtain rfl := Except.ok.inj hp
      exact ⟨rfl, .inl ⟨hlook, rfl⟩⟩
    | false =>
      obtain ⟨⟨⟩, _, hcopy, hrest⟩ := runOn_bind_eq_ok.mp hrest
      obtain ⟨hp, rfl⟩ := Prod.mk.inj hrest
      obtain rfl := Except.ok.inj hp
      exact ⟨rfl, .inr ⟨hlook, hcopy⟩⟩
  · rintro ⟨rfl, ⟨hlook, rfl⟩ | ⟨hlook, hcopy⟩⟩
    · exact ⟨true, after, runOn_reading_eq_ok.mpr ⟨hlook, rfl⟩, rfl⟩
    · exact ⟨false, s, runOn_reading_eq_ok.mpr ⟨hlook, rfl⟩, runOn_bind_ok hcopy _⟩

/-- **Two repositories go to two directories**, the second as its own copy, exactly if their names differ, nothing is
where the second goes, and copying succeeds. If their names agree, the second is taken to be where the first is, and no
program is started for it. -/
theorem copied_apart_iff {p : Path} {between : Session}
    (hfirst : s.files.exists? (.ofString first) = .ok false)
    (hrun : (locate first work).runOn around s = (.ok p, between))
    (hsecond : between.files.exists? (.ofString second) = .ok false) :
    ((∃ q after, (locate second work).runOn around between = (.ok q, after) ∧ p ≠ q ∧
        (Action.run (cloneWords second none q)).runOn around between = (.ok (), after)) ↔
      placeName first ≠ placeName second ∧ between.files.exists? (work.child (placeName second)) = .ok false ∧
        ∃ after, (Action.run (cloneWords second none (work.child (placeName second)))).runOn around between =
          (.ok (), after)) ∧
      (placeName first = placeName second → between.files.exists? p = .ok true →
        (locate second work).runOn around between = (.ok p, between)) := by
  obtain rfl := ((runOn_locate_of_absent hfirst).mp hrun).1
  refine ⟨⟨?_, ?_⟩, fun hname htaken => ?_⟩
  · rintro ⟨q, after, hlocate, hne, hcopy⟩
    obtain ⟨rfl, ⟨-, rfl⟩ | ⟨hfree, -⟩⟩ := (runOn_locate_of_absent hsecond).mp hlocate
    · simpa using congrArg (·.2.launches) (Action.runOn_run _ around after |>.symm.trans hcopy)
    · exact ⟨fun h => hne ((child_placeName_inj work).mpr h), hfree, after, hcopy⟩
  · rintro ⟨hne, hfree, after, hcopy⟩
    exact ⟨_, after, (runOn_locate_of_absent hsecond).mpr ⟨rfl, .inr ⟨hfree, hcopy⟩⟩,
      fun h => hne ((child_placeName_inj work).mp h), hcopy⟩
  · rw [hname] at htaken ⊢
    exact (runOn_locate_of_absent hsecond).mpr ⟨rfl, .inl ⟨htaken, rfl⟩⟩

/-- A working directory with directories of some names. -/
def areaWith (names : List String) : Files :=
  ⟨[(["work"], .folder), (["work", "area"], .folder)] ++ names.map fun name => (["work", "area", name], .folder), ["work"]⟩

theorem not_copied_apart_of_one_name : ∃ between,
    (locate "https://h/a/x" (.ofString "area")).runOn makesTarget { files := areaWith [] } =
        (.ok (.ofString "area/x"), between) ∧
      (locate "https://h/b/x.git" (.ofString "area")).runOn makesTarget between = (.ok (.ofString "area/x"), between) ∧
      ¬ ∃ q after, (locate "https://h/b/x.git" (.ofString "area")).runOn makesTarget between = (.ok q, after) ∧
        .ofString "area/x" ≠ q ∧
        (Action.run (cloneWords "https://h/b/x.git" none q)).runOn makesTarget between = (.ok (), after) := by
  have hname : placeName "https://h/a/x" = "x" := by decide +kernel
  have hname' : placeName "https://h/b/x.git" = "x" := by decide +kernel
  have hchild : (Path.ofString "area").child "x" = .ofString "area/x" := by decide +kernel
  have hfirst : (areaWith []).exists? (.ofString "https://h/a/x") = .ok false := by cbv
  have hfree : (areaWith []).exists? (.ofString "area/x") = .ok false := by cbv
  have hmade : (makesTarget.run (cloneWords "https://h/a/x" none (.ofString "area/x"))).runOn (areaWith []) =
      (.ok (), areaWith ["x"]) := by cbv
  have hsecond : (areaWith ["x"]).exists? (.ofString "https://h/b/x.git") = .ok false := by cbv
  have htaken : (areaWith ["x"]).exists? (.ofString "area/x") = .ok true := by cbv
  have hcopy := Action.runOn_run (cloneWords "https://h/a/x" none (.ofString "area/x")) makesTarget
    { files := areaWith [] }
  rw [hmade] at hcopy
  have hrun : (locate "https://h/a/x" (.ofString "area")).runOn makesTarget { files := areaWith [] } = _ :=
    (runOn_locate_of_absent hfirst).mpr ⟨by rw [hname, hchild], .inr ⟨hfree, hcopy⟩⟩
  have h := copied_apart_iff hfirst hrun hsecond
  refine ⟨_, hrun, h.2 (by rw [hname, hname']) htaken, ?_⟩
  rw [h.1]
  rintro ⟨hne, -⟩
  exact hne (by rw [hname, hname'])

end CodeAudit.Checkout
