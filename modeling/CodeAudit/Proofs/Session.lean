import Mathlib
import CodeAudit.Session.Basic

/-!
# Runs of tasks and actions

What is left by a task or an action is computed from its parts: the second part starts with what the first one
left, unless the first one failed.

## Main definitions

* `FileTask.Keeps` — a task that changes nothing that is there.

## Main results

* `FileTask.runOn_bind_ok`, `Action.runOn_bind_ok` — a run of two parts.
* `FileTask.runOn_bind_eq_ok`, `Action.runOn_bind_eq_ok` — when a run of two parts succeeds.
-/

namespace CodeAudit

namespace FileTask

variable {α β : Type}

variable {t : FileTask α} {fs fs' after : Files} {f : Fault} {change : Files → Except Fault Files}

@[simp] lemma runOn_pure (x : α) (fs : Files) : (pure x : FileTask α).runOn fs = (.ok x, fs) := rfl

/-- A run of two parts, the first of which succeeds. -/
lemma runOn_bind_ok {x : α} (h : t.runOn fs = (.ok x, fs'))
    (next : α → FileTask β) : (t >>= next).runOn fs = (next x).runOn fs' := by
  change ExceptT.bindCont next (t.runOn fs).1 (t.runOn fs).2 = _
  rw [h]
  rfl

/-- A run of two parts, the first of which fails. -/
lemma runOn_bind_error (h : t.runOn fs = (.error f, fs'))
    (next : α → FileTask β) : (t >>= next).runOn fs = (.error f, fs') := by
  change ExceptT.bindCont next (t.runOn fs).1 (t.runOn fs).2 = _
  rw [h]
  rfl

/-- A run of two parts succeeds exactly if both parts do, the second one on what the first one left. -/
lemma runOn_bind_eq_ok {next : α → FileTask β} {y : β} : (t >>= next).runOn fs = (.ok y, after) ↔
      ∃ x between, t.runOn fs = (.ok x, between) ∧ (next x).runOn between = (.ok y, after) := by
  cases hfirst : t.runOn fs with
  | mk outcome between =>
    cases outcome with
    | error f => simp [runOn_bind_error hfirst]
    | ok x => simp [runOn_bind_ok hfirst]

@[simp] lemma runOn_ofResult (r : Except Fault α) (fs : Files) : (ofResult r).runOn fs = (r, fs) := rfl

@[simp] lemma runOn_reading (look : Files → Except Fault α) (fs : Files) :
    (reading look).runOn fs = (look fs, fs) := rfl

lemma runOn_changing_ok (h : change fs = .ok fs') : (changing change).runOn fs = (.ok (), fs') := by
  rw [changing, runOn_bind_ok (by rw [runOn_reading, h])]
  rfl

/-- A change that fails leaves the files as they are. -/
lemma runOn_changing_error (h : change fs = .error f) : (changing change).runOn fs = (.error f, fs) := by
  rw [changing, runOn_bind_error (by rw [runOn_reading, h])]

/-- A change succeeds exactly if it leaves files. -/
lemma runOn_changing_eq_ok {u : Unit} : (changing change).runOn fs = (.ok u, after) ↔ change fs = .ok after := by
  cases hchange : change fs with
  | error f => simp [runOn_changing_error hchange]
  | ok left => simp [runOn_changing_ok hchange]

@[simp] lemma runOn_changingOn (change : Files → Except Fault α × Files) (fs : Files) :
    (changingOn change).runOn fs = change fs := rfl

@[simp] lemma runOn_makeFolders (p : Path) (fs : Files) :
    (makeFolders p).runOn fs = fs.ensureFolders p := rfl

/-- A task that changes nothing that is there, whether it succeeds or not. -/
def Keeps (t : FileTask α) : Prop :=
  ∀ fs place e, fs.entry? place = some e → Files.entry? (t.runOn fs).2 place = some e

end FileTask

namespace Action

variable {α β : Type}

variable {a : Action α} {around : Surroundings} {s s' after : Session} {x : α} {next : α → Action β} {y : β}

@[simp] lemma runOn_pure (x : α) (around : Surroundings) (s : Session) :
    (pure x : Action α).runOn around s = (.ok x, s) := rfl

/-- A run of two parts, the first of which succeeds. -/
lemma runOn_bind_ok (h : a.runOn around s = (.ok x, s')) (next : α → Action β) :
    (a >>= next).runOn around s = (next x).runOn around s' := by
  change ExceptT.bindCont (fun x => next x around) (a.runOn around s).1 (a.runOn around s).2 = _
  rw [h]
  rfl

/-- A run of two parts, the first of which stops. -/
lemma runOn_bind_error {stop : Stop} (h : a.runOn around s = (.error stop, s')) (next : α → Action β) :
    (a >>= next).runOn around s = (.error stop, s') := by
  change ExceptT.bindCont (fun x => next x around) (a.runOn around s).1 (a.runOn around s).2 = _
  rw [h]
  rfl

/-- A run of two parts succeeds exactly if both parts do, the second one on what the first one left. -/
lemma runOn_bind_eq_ok : (a >>= next).runOn around s = (.ok y, after) ↔
      ∃ x between, a.runOn around s = (.ok x, between) ∧ (next x).runOn around between = (.ok y, after) := by
  cases hfirst : a.runOn around s with
  | mk outcome between =>
    cases outcome with
    | error stop => simp [runOn_bind_error hfirst]
    | ok x => simp [runOn_bind_ok hfirst]

@[simp] lemma runOn_ofResult (r : Except Fault α) (around : Surroundings) (s : Session) :
    (ofResult r).runOn around s = (r.mapError .fault, s) := by
  cases r <;> rfl

/-- A result succeeds as an action exactly if it is one, and changes nothing. -/
lemma runOn_ofResult_eq_ok {r : Except Fault α} :
    (ofResult r).runOn around s = (.ok x, after) ↔ r = .ok x ∧ after = s := by
  rw [runOn_ofResult]
  cases r <;> simp [Except.mapError, eq_comm]

@[simp] lemma runOn_read (around : Surroundings) (s : Session) :
    (read : Action Surroundings).runOn around s = (.ok around, s) := rfl

@[simp] lemma runOn_launch (l : Launch) (around : Surroundings) (s : Session) :
    (launch l).runOn around s = (.ok (), { s with launches := s.launches ++ [l] }) := rfl

/-- A task on the files of a session changes nothing else. -/
@[simp] lemma runOn_files (t : FileTask α) (around : Surroundings) (s : Session) :
    (files t).runOn around s =
      ((t.runOn s.files).1.mapError .fault, { s with files := (t.runOn s.files).2 }) := by
  change (ofResult (t.runOn s.files).1).runOn around { s with files := (t.runOn s.files).2 } = _
  cases (t.runOn s.files).1 <;> rfl

/-- A task on the files of a session succeeds exactly as it does on these files. -/
lemma runOn_files_eq_ok {t : FileTask α} : (files t).runOn around s = (.ok x, after) ↔
      ∃ fs, t.runOn s.files = (.ok x, fs) ∧ after = { s with files := fs } := by
  rw [runOn_files]
  cases hrun : t.runOn s.files with
  | mk outcome fs => cases outcome <;> simp [Except.mapError, eq_comm]

/-- A look at the files of a session succeeds exactly if it does on these files, and changes nothing. -/
lemma runOn_reading_eq_ok {look : Files → Except Fault α} :
    (reading look).runOn around s = (.ok x, after) ↔ look s.files = .ok x ∧ after = s := by
  rw [reading, runOn_files_eq_ok]
  constructor
  · rintro ⟨fs, hlook, rfl⟩
    obtain ⟨hok, rfl⟩ := Prod.mk.inj ((FileTask.runOn_reading look s.files).symm.trans hlook)
    exact ⟨hok, rfl⟩
  · rintro ⟨hlook, rfl⟩
    exact ⟨after.files, by rw [FileTask.runOn_reading, hlook], rfl⟩

/-- Rules are loaded from the files of a session, and what it holds otherwise. -/
lemma runOn_rules_eq_ok {path : Path} {d : Datum} :
    (rules path).runOn around s = (.ok d, after) ↔ Rules.load s.files (some path) s.rules = .ok d ∧ after = s := by
  change (reading fun fs => Rules.load fs (some path) s.rules).runOn around s = _ ↔ _
  exact runOn_reading_eq_ok

@[simp] lemma runOn_display (d : Display) (around : Surroundings) (s : Session) :
    (display d).runOn around s = (.ok (), { s with displays := s.displays ++ [d] }) := rfl

@[simp] lemma runOn_say (text : String) (around : Surroundings) (s : Session) :
    (say text).runOn around s = (.ok (), { s with output := s.output ++ text ++ "\n" }) := rfl

@[simp] lemma runOn_exit (code : ℕ) (around : Surroundings) (s : Session) :
    (exit code : Action α).runOn around s = (.error (.exit code), s) := rfl

/-- What becomes of an outcome if failure is a result. -/
def attempted : Except Stop α → Except Stop (Except Fault α)
  | .ok x => .ok (.ok x)
  | .error (.fault f) => .ok (.error f)
  | .error stop => .error stop

/-- An action whose failure is a result runs as the action does. -/
lemma runOn_attempt (a : Action α) (around : Surroundings) (s : Session) :
    (attempt a).runOn around s = (attempted (a.runOn around s).1, (a.runOn around s).2) := by
  simp only [attempt, runOn, tryCatch, tryCatchThe, MonadExceptOf.tryCatch, ReaderT.run, ExceptT.run,
    ExceptT.tryCatch, ExceptT.mk, StateT.run, bind, StateT.bind, Functor.map, ExceptT.map]
  rcases a around s with ⟨outcome, after⟩
  cases outcome with
  | ok x => rfl
  | error stop => cases stop <;> rfl

/-- A program that is started is recorded and may change the files. -/
lemma runOn_run (words : List String) (around : Surroundings) (s : Session) :
    (run words).runOn around s =
      (((around.run words).runOn s.files).1.mapError .fault,
        { s with files := ((around.run words).runOn s.files).2,
                 launches := s.launches ++ [.program words] }) := by
  rw [run, runOn_bind_ok (runOn_launch _ _ _), runOn_bind_ok (runOn_read _ _), runOn_files]

end Action

end CodeAudit
