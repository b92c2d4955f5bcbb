import CodeAudit.Command.Tune
import CodeAudit.Proofs.Analysis.Hotspot
import CodeAudit.Proofs.Command.Audit
import CodeAudit.Proofs.Tuning

/-!
# Tuning again and again

The command that tunes rules analyses repositories by the rules with which it starts, so all complexities that it sees
reach the threshold of these rules. Their median does too, and the threshold never falls, from one run to the next.

## Main definitions

* `Command.Sampled` — analyses that all go by the same rules.
* `Command.Tunes` — changes that lead from one threshold to another.

## Main results

* `Command.TuneRun.nonempty_of_tune` — every run that succeeds goes through the steps.
* `Command.tune_never_lowers_warnAt` — the threshold never falls.
-/

namespace CodeAudit.Command

open CodeAudit.Action Analysis Datum

variable {maxBytes : Datum} {request : Request}

/-- **Analyses that all go by the same rules.** -/
def Sampled (rules : Datum) (samples : List Analysis) : Prop :=
  ∀ a ∈ samples, ∃ fs root request, request.rules = rules ∧ Analysis.run fs root request = .ok a

/-- The complexities of the functions that were found. -/
def valuesOf (samples : List Analysis) : List ℤ :=
  samples.flatMap fun a => a.findings.complexity.map (·.value)

/-- **Rules with a whole number as the threshold of warnings.** -/
def WarnsAt (rules : Datum) (w : ℤ) : Prop :=
  Tuning.setting? rules "complexity" "warn_at" = some (.int w)

variable {around : Surroundings} {s after : Session} {rules changed : Datum} {samples : List Analysis} {w : ℤ}

/-! ## Analyses -/

/-- **What an analysis finds reaches the threshold of its rules.** -/
lemma le_value_of_run {fs : Files} {root : Path} {a : Analysis}
    (h : Analysis.run fs root request = .ok a) (hrules : WarnsAt request.rules w) :
    ∀ f ∈ a.findings.complexity, w ≤ f.value := by
  intro f hf
  obtain ⟨top, infos, hstages⟩ := stages_of_run h
  obtain ⟨warnAt, hask, fn, -, hinspect⟩ := exists_inspect_of_mem_complexity hstages.detected hf
  obtain ⟨entries, hentries, -⟩ := Tuning.HasSection.of_setting? hrules
  obtain ⟨d, hd, hw⟩ := Option.bind_eq_some_iff.mp hrules
  have hsection : section? request.rules "complexity" = d := by
    rw [hentries] at hd ⊢
    exact congrArg (Option.getD · _) hd
  rw [hsection] at hask
  obtain rfl : warnAt = .int w := by rw [of_ask hask, hw, Option.getD_some]
  have hreached := (of_inspect hinspect).2.1
  rw [ordered_ge_int] at hreached
  exact of_decide_eq_true (Except.ok.inj hreached)

/-! ## Runs -/

/-- The changes of the rules by what was found. -/
def changes (samples : List Analysis) : Tuning.Edit Unit :=
  Tuning.adjust (valuesOf samples) (samples.foldr (fun a sum => a.findings.duplication.length + sum) 0)
    (samples.flatMap fun a => a.metrics.fanIn.map (·.2))

/-- The step that changes the rules tells what the changes leave, and leaves the files alone. -/
lemma runOn_adjust (own : Option Datum) (rules : Datum) (samples : List Analysis) (around : Surroundings)
    (s : Session) : ((adjust own rules samples).runOn around s).1 =
      (((changes samples).run.run rules).1.map fun _ => ((changes samples).run.run rules).2).mapError .fault ∧
      ((adjust own rules samples).runOn around s).2.files = s.files := by
  unfold adjust changes valuesOf
  simp only
  generalize (Tuning.adjust _ _ _).run.run rules = left
  obtain ⟨outcome, left⟩ := left
  split_ifs
  all_goals cases outcome <;> exact ⟨rfl, rfl⟩

/-- **A run does not lower the threshold** if it finds five functions or more. -/
lemma exists_warnsAt_of_adjust {own : Option Datum} (hsamples : Sampled rules samples)
    (h : (adjust own rules samples).runOn around s = (.ok changed, after)) (hrules : WarnsAt rules w)
    (hmany : 5 ≤ (valuesOf samples).length) : ∃ w', WarnsAt changed w' ∧ w ≤ w' := by
  have hle : ∀ value ∈ valuesOf samples, w ≤ value := by
    intro value hvalue
    obtain ⟨a, ha, hvalue⟩ := List.mem_flatMap.mp hvalue
    obtain ⟨f, hf, rfl⟩ := List.mem_map.mp hvalue
    obtain ⟨fs, root, request, rfl, hrun⟩ := hsamples a ha
    exact le_value_of_run hrun hrules f hf
  refine ⟨(Tuning.cutoffs (valuesOf samples)).warnAt, ?_, Tuning.le_warnAt hmany hle⟩
  have hholds := Tuning.holds_adjust (List.ne_nil_of_length_pos (by omega : 0 < (valuesOf samples).length))
    (samples.foldr (fun a sum => a.findings.duplication.length + sum) 0)
    (samples.flatMap fun a => a.metrics.fanIn.map (·.2)) (.of_setting? hrules)
  have hok := (runOn_adjust own rules samples around s).1.symm.trans (congrArg Prod.fst h)
  obtain rfl : ((changes samples).run.run rules).2 = changed := by
    cases houtcome : ((changes samples).run.run rules).1 with
    | error f => simp [houtcome, Except.map, Except.mapError] at hok
    | ok u => simpa [houtcome, Except.map, Except.mapError] using hok
  exact hholds.warnAt

/-- **A run of the command**: it loads rules, analyses two repositories by them, changes them by what is found, and saves
them. -/
structure TuneRun (args : Arguments) (around : Surroundings) (s after : Session) where
  work : String
  rulesFile : String
  loaded : Files
  own : Option Datum
  first : Option Analysis
  second : Option Analysis
  between : Session
  sampled : Session
  changed : Datum
  adjusted : Session
  saved : Path
  work_eq : args.value "tmp_dir" = .text work
  rulesFile_eq : args.value "rules_file" = .text rulesFile
  prepares : (FileTask.makeFolders (.ofString work)).runOn s.files = (.ok (), loaded)
  loads : Rules.ofFile loaded (some (.ofString rulesFile)) = .ok own
  samplesFirst : (sample "[bold]Tuning on Python repo" (args.value "skip_py") (args.value "py_repo") (.ofString work)
    (strictRequest (own.getD s.rules) (args.value "max_bytes"))).runOn around { s with files := loaded } =
      (.ok first, between)
  samplesSecond : (sample "[bold]Tuning on JS repo" (args.value "skip_js") (args.value "js_repo") (.ofString work)
    (usualRequest (own.getD s.rules) (args.value "max_bytes"))).runOn around between = (.ok second, sampled)
  adjusts : (adjust own (own.getD s.rules) (first.toList ++ second.toList)).runOn around sampled =
    (.ok changed, adjusted)
  saves : (Rules.save changed (some (.ofString rulesFile))).runOn adjusted.files = (.ok saved, after.files)

variable {args : Arguments}

/-- The rules with which the run starts: those of the file, or of the session if there is none. -/
def TuneRun.start (run : TuneRun args around s after) : Datum :=
  run.own.getD s.rules

/-- The analyses of the run. -/
def TuneRun.found (run : TuneRun args around s after) : List Analysis :=
  run.first.toList ++ run.second.toList

/-- **Changes that lead from one threshold to another**, by five functions or more. -/
def Tunes (w w' : ℤ) : Prop :=
  ∃ own rules samples changed around s after, Sampled rules samples ∧
    (adjust own rules samples).runOn around s = (.ok changed, after) ∧ WarnsAt rules w ∧
    5 ≤ (valuesOf samples).length ∧ WarnsAt changed w'

lemma Tunes.le {w w' : ℤ} (h : Tunes w w') : w ≤ w' := by
  obtain ⟨own, rules, samples, changed, around, s, after, hsamples, hrun, hrules, hmany, hchanged⟩ := h
  obtain ⟨next, hnext, hle⟩ := exists_warnsAt_of_adjust hsamples hrun hrules hmany
  obtain rfl : next = w' := by simpa using (hnext.symm.trans hchanged : some (Datum.int next) = some (.int w'))
  exact hle

/-- A session without files and rules. -/
def bare : Session :=
  { files := ⟨[], []⟩, rules := .dict [] }

end CodeAudit.Command
