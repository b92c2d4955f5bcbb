import CodeAudit.Detect.Complexity
import CodeAudit.Proofs.Number.Double
import CodeAudit.Proofs.Outcome
import CodeAudit.Source.Modules

/-!
# Reading the modules of a repository

A file is read as a module if it is no script or is a program; a script that is no program makes the reading of
all files fail. The functions of a module are those that its program defines, and they count their branches by a
double.

## Main definitions

* `Modules.IsScript`, `Modules.IsMalformed` — a file that is read as a script, and one that is no
  program besides.

## Main results

* `Modules.exists_readAll_iff` — files can be read exactly if no script among them is malformed.
* `Modules.of_mem_functions`, `Modules.of_mem_flatMap_functions` — what is known of the functions of
  a module and of files.
-/

namespace CodeAudit

open Source

/-- An analysis knows no other language. -/
lemma Language.ofEnding_ne_other (text tag : String) : Language.ofEnding text ≠ .other tag := by
  unfold Language.ofEnding
  dsimp only
  split_ifs <;> simp

namespace Modules

variable {fs : Files} {root path : Path}

variable {m : ModuleUnit} {paths : List Path} {modules : List ModuleUnit} {fn : FunctionUnit}

variable {lines : List (List Char)}

/-- A file that is read as a script. -/
def IsScript (root path : Path) : Prop :=
  Language.ofEnding (root.join path).toString = .python

/-- A script that is no program. -/
def IsMalformed (fs : Files) (root path : Path) : Prop :=
  IsScript root path ∧ ∃ fault, Script.parse (sourceText fs root path) = .error fault

/-- **What reading a file gives.** -/
lemma readModule_cases (fs : Files) (root path : Path) :
    (¬ IsScript root path ∧ ∃ lang, lang ≠ .python ∧ readModule fs root path = .ok ⟨path, lang, []⟩) ∨
      (IsScript root path ∧ ∃ tree, Script.parse (sourceText fs root path) = .ok tree ∧
        readModule fs root path = .ok ⟨path, .python, functionsOf path (sourceText fs root path) tree⟩) ∨
      ∃ fault, IsMalformed fs root path ∧ readModule fs root path = .error (.malformedSource fault) := by
  unfold readModule ofText IsMalformed IsScript
  cases Language.ofEnding (root.join path).toString with
  | python =>
    right
    unfold outline
    cases hparse : Script.parse (sourceText fs root path) with
    | ok tree => exact .inl ⟨rfl, tree, rfl, rfl⟩
    | error fault => exact .inr ⟨fault, ⟨rfl, fault, rfl⟩, rfl⟩
  | javascript => exact .inl ⟨by simp, .javascript, by simp, rfl⟩
  | typescript => exact .inl ⟨by simp, .typescript, by simp, rfl⟩
  | unknown => exact .inl ⟨by simp, .unknown, by simp, rfl⟩
  | other tag => exact .inl ⟨by simp, .unknown, by simp, rfl⟩

/-- A module carries the path of its file. -/
lemma path_of_readModule (h : readModule fs root path = .ok m) : m.path = path := by
  rcases readModule_cases fs root path with ⟨-, lang, -, hok⟩ | ⟨-, tree, -, hok⟩ | ⟨fault, -, herror⟩
  · rw [← Except.ok.inj (hok.symm.trans h)]
  · rw [← Except.ok.inj (hok.symm.trans h)]
  · rw [herror] at h
    cases h

/-- **A module carries the language of its file.** -/
lemma lang_of_readModule (h : readModule fs root path = .ok m) :
    m.lang = Language.ofEnding (root.join path).toString := by
  unfold readModule ofText at h
  cases hlang : Language.ofEnding (root.join path).toString with
  | python =>
    rw [hlang] at h
    unfold outline at h
    cases hparse : Script.parse (sourceText fs root path) with
    | ok tree =>
      rw [hparse] at h
      rw [← Except.ok.inj h]
    | error fault =>
      rw [hparse] at h
      cases h
  | javascript | typescript =>
    rw [hlang] at h
    rw [← Except.ok.inj h]
    rfl
  | unknown =>
    rw [hlang] at h
    rw [← Except.ok.inj h]
  | other tag => exact absurd hlang (Language.ofEnding_ne_other _ _)

/-- A file can be read exactly if it is no malformed script. -/
lemma exists_readModule_iff : (∃ m, readModule fs root path = .ok m) ↔ ¬ IsMalformed fs root path := by
  rcases readModule_cases fs root path with ⟨hno, lang, -, hok⟩ | ⟨-, tree, hparse, hok⟩ | ⟨fault, hbad, herror⟩
  · exact iff_of_true ⟨_, hok⟩ fun hbad => hno hbad.1
  · refine iff_of_true ⟨_, hok⟩ ?_
    rintro ⟨-, fault, herror⟩
    rw [hparse] at herror
    cases herror
  · refine iff_of_false ?_ (not_not.mpr hbad)
    rintro ⟨m, hm⟩
    rw [herror] at hm
    cases hm

/-- **Files can be read exactly if no script among them is malformed.** -/
lemma exists_readAll_iff :
    (∃ modules, readAll fs root paths = .ok modules) ↔ ∀ path ∈ paths, ¬ IsMalformed fs root path := by
  constructor
  · rintro ⟨modules, h⟩ path hpath
    have hmem : readModule fs root path ∈ modules.map Except.ok := by
      rw [← Outcome.mapM_eq_ok_iff.mp h]
      exact List.mem_map_of_mem hpath
    obtain ⟨m, -, hm⟩ := List.mem_map.mp hmem
    exact exists_readModule_iff.mp ⟨m, hm.symm⟩
  · exact fun h => Outcome.exists_mapM fun path hpath => exists_readModule_iff.mpr (h path hpath)

/-- Files that cannot be read fail as a malformed script does. -/
lemma of_readAll_eq_error {e : Fault} (h : readAll fs root paths = .error e) :
    ∃ fault, e = .malformedSource fault := by
  obtain ⟨path, -, hpath⟩ := Outcome.exists_of_mapM_eq_error h
  rcases readModule_cases fs root path with ⟨-, lang, -, hok⟩ | ⟨-, tree, -, hok⟩ | ⟨fault, -, herror⟩
  · rw [hok] at hpath
    cases hpath
  · rw [hok] at hpath
    cases hpath
  · exact ⟨fault, Except.error.inj (hpath.symm.trans herror)⟩

/-- The modules that are read are those of the files, in order. -/
lemma map_path_of_readAll (h : readAll fs root paths = .ok modules) : modules.map (·.path) = paths :=
  (Outcome.map_eq_of_mapM h fun _ _ _ => path_of_readModule).trans (List.map_id paths)

/-! ## Functions -/

/-- **What is known of the functions of a module.** -/
lemma of_mem_functions (h : readModule fs root path = .ok m) (hfn : fn ∈ m.functions) :
    ∃ tree node, Script.parse (sourceText fs root path) = .ok tree ∧ node ∈ tree.levelOrder ∧
      fn = functionUnit path (Text.physicalLines (sourceText fs root path)) node := by
  rcases readModule_cases fs root path with ⟨-, lang, -, hok⟩ | ⟨-, tree, hparse, hok⟩ | ⟨fault, -, herror⟩
  · obtain rfl := Except.ok.inj (hok.symm.trans h)
    cases hfn
  · obtain rfl := Except.ok.inj (hok.symm.trans h)
    obtain ⟨node, hnode, rfl⟩ := List.mem_map.mp hfn
    exact ⟨tree, node, hparse, (List.mem_filter.mp hnode).1, rfl⟩
  · rw [herror] at h
    cases h

/-- **What is known of the functions of files**: each is a function of a script. -/
lemma of_mem_flatMap_functions (h : readAll fs root paths = .ok modules) (hfn : fn ∈ modules.flatMap (·.functions)) :
    ∃ path ∈ paths, IsScript root path ∧ ∃ node,
      fn = functionUnit path (Text.physicalLines (sourceText fs root path)) node := by
  obtain ⟨m, hm, hfn⟩ := List.mem_flatMap.mp hfn
  obtain ⟨path, hpath, hmodule⟩ := Outcome.exists_of_mem_mapM h hm
  obtain ⟨tree, node, -, -, hnode⟩ := of_mem_functions hmodule hfn
  refine ⟨path, hpath, ?_, node, hnode⟩
  rcases readModule_cases fs root path with ⟨-, lang, -, hok⟩ | ⟨hscript, -⟩ | ⟨fault, ⟨hscript, -⟩, -⟩
  · obtain rfl := Except.ok.inj (hok.symm.trans hmodule)
    cases hfn
  · exact hscript
  · exact hscript

lemma complexity_functionUnit (path : Path) (lines : List (List Char)) (node : Script.Node) :
    Complexity.complexity (functionUnit path lines node) =
      (Datum.floatToInt (Number.ofInt (branches node))).map (1 + ·) := rfl

/-- The complexity of a function is one more than the number of its branches, rounded to a double. -/
lemma truncate_of_complexity {node : Script.Node} {value : ℤ}
    (h : Complexity.complexity (functionUnit path lines node) = .ok value) :
    Number.truncate (Number.ofInt (branches node)) = .ok (value - 1) := by
  rw [complexity_functionUnit] at h
  obtain ⟨n, hn, rfl⟩ := Outcome.map_eq_ok.mp h
  rw [add_sub_cancel_left]
  unfold Datum.floatToInt at hn
  split at hn
  · rwa [← Except.ok.inj hn]
  · cases hn
  · cases hn

/-- A complexity that is told can be a double. -/
lemma natAbs_complexity_le {node : Script.Node} {value : ℤ}
    (h : Complexity.complexity (functionUnit path lines node) = .ok value) :
    value.natAbs ≤ Number.greatest + 1 := by
  have := Number.natAbs_le_greatest (truncate_of_complexity h)
  omega

end Modules

end CodeAudit
