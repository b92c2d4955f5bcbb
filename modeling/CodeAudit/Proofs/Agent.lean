import CodeAudit.Agent.Basic
import CodeAudit.Proofs.Datum
import CodeAudit.Proofs.Outcome
import CodeAudit.Proofs.Session

/-!
# Runs of the agent

A run goes through the guard and at most one more step. Each of them adds its name to the steps of the state, the
last one says something and ends the run, and none of them touches what tells the agent what is wanted.

## Main definitions

* `Agent.inputs` — the keys that tell what is wanted.
* `Agent.Holds` — the items that a state holds under a key.

## Main results

* `Agent.of_guard`, `Agent.of_perform` — what the guard and the steps behind it add.
* `Agent.run_extends_history` — what a run adds to a state, and what it leaves alone.
-/

namespace CodeAudit.Agent

open CodeAudit.Action Outcome

/-- The keys that tell what is wanted. -/
def inputs : List String :=
  ["mode", "path", "include", "exclude", "max_bytes", "question", "k", "name_match_boost"]

/-! ## Histories -/

/-- **The items that a state holds under a key**: those of a list, and none if there is no value or one that counts as
false. -/
def Holds (state : Datum) (key : String) (items : List Datum) : Prop :=
  state.entry? key = some (.list items) ∨ items = [] ∧ ∀ d, state.entry? key = some d → d.truthy = false

variable {state final : Datum} {key : String} {update : Update}

/-- A list under a key is what the state holds there. -/
lemma Holds.eq_of_entry? {items items' : List Datum} (h : Holds state key items)
    (hlist : state.entry? key = some (.list items')) : items = items' := by
  rcases h with hitems | ⟨rfl, hfalse⟩
  · rw [hlist] at hitems
    simpa using hitems.symm
  · have hempty := hfalse _ hlist
    cases items' with
    | nil => rfl
    | cons d rest => cases hempty

/-- A state with the same value under a key holds the same there. -/
lemma Holds.congr {items : List Datum} (h : Holds state key items) (heq : state.entry? key = final.entry? key) :
    Holds final key items := by
  rwa [Holds, ← heq]

/-- **A list of a state can be extended only if the state holds items there.** -/
lemma of_extended {item d : Datum} (h : extended state key item = .ok d) :
    ∃ items, Holds state key items ∧ d = .list (items ++ [item]) := by
  unfold extended at h
  obtain ⟨old, hold, h⟩ := bind_eq_ok.mp h
  have hentry := Datum.of_ask hold
  obtain ⟨items, hitems, rfl⟩ := Datum.of_add_list h
  refine ⟨items, ?_, rfl⟩
  cases hvalue : state.entry? key with
  | none =>
    obtain rfl : old = .null := by simpa [hvalue] using hentry
    exact .inr ⟨(Datum.list.inj hitems).symm, by simp [hvalue]⟩
  | some value =>
    obtain rfl : old = value := by simpa [hvalue] using hentry
    rw [Datum.orElse] at hitems
    split_ifs at hitems with htruth
    · exact .inl (hitems ▸ hvalue)
    · refine .inr ⟨(Datum.list.inj hitems).symm, fun d hd => ?_⟩
      rw [← Option.some.inj (hvalue.symm.trans hd)]
      simpa using htruth

/-! ## Updates -/

/-- The value that an update leaves under a key, if it puts one there. -/
def put? (update : Update) (key : String) : Option Datum :=
  update.reverse.lookup key

/-- **What a state holds after an update**: what the update puts under a key, else what stood there. -/
lemma entry?_updated (h : updated state update = .ok final) (key : String) :
    final.entry? key = (put? update key).or (state.entry? key) := by
  cases state with
  | dict entries =>
    obtain rfl := Except.ok.inj h
    exact Datum.lookup_insertAll_named key update entries
  | _ => cases h

/-- An update that adds a step to the steps of a state and leaves alone what is wanted. -/
structure Adds (state : Datum) (name : String) (update : Update) : Prop where
  steps : ∃ steps, Holds state "steps" steps ∧ put? update "steps" = some (.list (steps ++ [.text name]))
  inputs : ∀ key ∈ inputs, put? update key = none

/-- An update that ends a run with a remark. -/
structure Concludes (state : Datum) (update : Update) : Prop where
  action : put? update "next_action" = some (.text "end")
  messages : ∃ messages text, Holds state "messages" messages ∧
    put? update "messages" = some (.list (messages ++ [remark text]))

/-- The action by which a state asks for a step. -/
def Step.action : Step → String
  | analyse => "run_analyze"
  | chat => "run_chat"
  | finish => "end"

/-- The names that a step adds to the steps of a state. -/
def Step.trail : Step → List Datum
  | analyse => [.text "analyze"]
  | chat => [.text "chat"]
  | finish => []

/-- The end of a run with a remark. -/
lemma of_ending {text : String} (h : ending state text = .ok update) :
    ∃ messages, Holds state "messages" messages ∧
      update = [("next_action", .text "end"), ("messages", .list (messages ++ [remark text]))] := by
  unfold ending at h
  obtain ⟨d, hd, h⟩ := bind_eq_ok.mp h
  obtain rfl := Except.ok.inj h
  obtain ⟨messages, hmessages, rfl⟩ := of_extended hd
  exact ⟨messages, hmessages, rfl⟩

/-- What the guard adds to a state beside its own step: an action that leads on, or the end of the run. -/
lemma of_judge {fs : Files} {mode : String} (h : judge fs state mode = .ok update) :
    (∃ step : Step, step ≠ .finish ∧ update = [("next_action", .text step.action)]) ∨
      ∃ text, ending state text = .ok update := by
  unfold judge at h
  split at h
  · obtain ⟨d, -, h⟩ := bind_eq_ok.mp h
    obtain ⟨path, -, h⟩ := bind_eq_ok.mp h
    obtain ⟨there, -, h⟩ := bind_eq_ok.mp h
    split_ifs at h
    · exact .inl ⟨.analyse, by simp, (Except.ok.inj h).symm⟩
    · exact .inr ⟨_, h⟩
  · obtain ⟨d, -, h⟩ := bind_eq_ok.mp h
    split_ifs at h
    · exact .inl ⟨.chat, by simp, (Except.ok.inj h).symm⟩
    · exact .inr ⟨_, h⟩
  · exact .inr ⟨_, h⟩

/-- **What the guard adds to a state**: its own step, and the next one, with a remark exactly if that is the end. -/
lemma of_guard {fs : Files} (h : guard fs state = .ok update) :
    Adds state "guardrails" update ∧ ∃ step : Step, put? update "next_action" = some (.text step.action) ∧
      (step = .finish ∧ Concludes state update ∨ step ≠ .finish ∧ put? update "messages" = none) := by
  unfold guard at h
  obtain ⟨mode, -, h⟩ := bind_eq_ok.mp h
  obtain ⟨d, hd, h⟩ := bind_eq_ok.mp h
  obtain ⟨rest, hrest, h⟩ := bind_eq_ok.mp h
  obtain rfl := Except.ok.inj h
  obtain ⟨steps, hsteps, rfl⟩ := of_extended hd
  rcases of_judge hrest with ⟨step, hstep, rfl⟩ | ⟨text, hend⟩
  · exact ⟨⟨⟨steps, hsteps, rfl⟩, by simp [inputs, put?]⟩, step, rfl, .inr ⟨hstep, rfl⟩⟩
  · obtain ⟨messages, hmessages, rfl⟩ := of_ending hend
    exact ⟨⟨⟨steps, hsteps, rfl⟩, by simp [inputs, put?]⟩, .finish, rfl, .inl ⟨rfl, rfl, messages, text, hmessages, rfl⟩⟩

/-- The step that a state asks for by its action. -/
lemma next_of_asked {step : Step} (h : state.entry? "next_action" = some (.text step.action)) :
    Step.next state = .ok step := by
  cases state with
  | dict entries =>
    have hask : (Datum.dict entries).ask "next_action" .null = .ok (.text step.action) := by
      change Except.ok _ = _
      rw [show Datum.lookup (.text "next_action") entries = some (.text step.action) from h, Option.getD_some]
    rw [Step.next, hask]
    cases step <;> simp [bind, Except.bind, pure, Except.pure, Step.action]
  | _ => cases h

/-! ## The steps behind the guard -/

variable {around : Surroundings} {s after : Session}

/-- A step whose update ends with a remark and its own name adds its name and ends the run. -/
lemma adds_concludes {front last : Update} {name text : String} {d : Datum} (hfront : ∀ e ∈ front, e.1 ∉ inputs)
    (hlast : ending state text = .ok last) (hd : extended state "steps" (.text name) = .ok d) :
    Adds state name (front ++ last ++ [("steps", d)]) ∧ Concludes state (front ++ last ++ [("steps", d)]) := by
  obtain ⟨messages, hmessages, rfl⟩ := of_ending hlast
  obtain ⟨steps, hsteps, rfl⟩ := of_extended hd
  set own : Update := [("steps", .list (steps ++ [.text name])), ("messages", .list (messages ++ [remark text])),
    ("next_action", .text "end")] with hown
  -- what is put last is found first
  have hput : ∀ key, put? (front ++ [("next_action", .text "end"), ("messages", .list (messages ++ [remark text]))] ++
      [("steps", .list (steps ++ [.text name]))]) key = (own.lookup key).or (front.reverse.lookup key) := by
    intro key
    rw [← List.lookup_append, put?, List.reverse_append, List.reverse_append]
    rfl
  refine ⟨⟨⟨steps, hsteps, by rw [hput]; rfl⟩, fun key hkey => ?_⟩, by rw [hput]; rfl, messages, text, hmessages,
    by rw [hput]; rfl⟩
  have hnone : own.lookup key = none := by
    revert hkey
    revert key
    simp [inputs, own]
  have hrest : front.reverse.lookup key = none := by
    rw [List.lookup_eq_none_iff]
    intro e he
    have hne : key ≠ e.1 := fun heq => hfront e (List.mem_reverse.mp he) (heq ▸ hkey)
    simpa using hne
  rw [hput, hnone, hrest]
  rfl

/-- An analysis adds its own step and ends the run with a remark. -/
lemma of_analyse (h : (analyse state).runOn around s = (.ok update, after)) :
    Adds state "analyze" update ∧ Concludes state update := by
  unfold analyse at h
  obtain ⟨scope, s₁, -, h⟩ := runOn_bind_eq_ok.mp h
  obtain ⟨infos, s₂, -, h⟩ := runOn_bind_eq_ok.mp h
  split_ifs at h
  · obtain ⟨hend, -⟩ := runOn_ofResult_eq_ok.mp h
    obtain ⟨last, hlast, hend⟩ := bind_eq_ok.mp hend
    obtain ⟨d, hd, hend⟩ := bind_eq_ok.mp hend
    obtain rfl := Except.ok.inj hend
    have hnothing : ∀ e ∈ ([] : Update), e.1 ∉ inputs := by simp
    exact adds_concludes hnothing hlast hd
  · obtain ⟨rules, s₃, -, h⟩ := runOn_bind_eq_ok.mp h
    obtain ⟨weights, s₄, -, h⟩ := runOn_bind_eq_ok.mp h
    obtain ⟨done, s₅, -, h⟩ := runOn_bind_eq_ok.mp h
    obtain ⟨hend, -⟩ := runOn_ofResult_eq_ok.mp h
    obtain ⟨last, hlast, hend⟩ := bind_eq_ok.mp hend
    obtain ⟨d, hd, hend⟩ := bind_eq_ok.mp hend
    obtain rfl := Except.ok.inj hend
    exact adds_concludes (by simp [inputs]) hlast hd

/-- A search adds its own step and ends the run with a remark. -/
lemma of_chat (h : (chat state).runOn around s = (.ok update, after)) :
    Adds state "chat" update ∧ Concludes state update := by
  unfold chat at h
  obtain ⟨question, s₁, -, h⟩ := runOn_bind_eq_ok.mp h
  obtain ⟨settings, s₂, -, h⟩ := runOn_bind_eq_ok.mp h
  obtain ⟨docs, s₃, -, h⟩ := runOn_bind_eq_ok.mp h
  obtain ⟨hend, -⟩ := runOn_ofResult_eq_ok.mp h
  obtain ⟨text, -, hend⟩ := bind_eq_ok.mp hend
  obtain ⟨extracts, -, hend⟩ := bind_eq_ok.mp hend
  obtain ⟨last, hlast, hend⟩ := bind_eq_ok.mp hend
  obtain ⟨d, hd, hend⟩ := bind_eq_ok.mp hend
  obtain rfl := Except.ok.inj hend
  exact adds_concludes (by simp [inputs]) hlast hd

/-- **What a step behind the guard adds to a state**: its own name and the end of the run with a remark. Where the
guard ends the run, nothing is added. -/
lemma of_perform {step : Step} (h : (perform step state).runOn around s = (.ok update, after)) :
    step = .finish ∧ update = [] ∨
      step ≠ .finish ∧ ∃ name, step.trail = [.text name] ∧ Adds state name update ∧ Concludes state update := by
  cases step with
  | analyse => exact .inr ⟨by simp, "analyze", rfl, of_analyse h⟩
  | chat => exact .inr ⟨by simp, "chat", rfl, of_chat h⟩
  | finish =>
    obtain ⟨rfl, -⟩ : [] = update ∧ s = after := by simpa [perform] using h
    exact .inl ⟨rfl, rfl⟩

/-! ## Runs -/

/-- **What a run adds to a state, and what it leaves alone.** The steps of the final state are those of the initial one,
the guard and at most one more; its messages are the initial ones and one remark of the agent; it asks for the end; and
what is wanted is still there.

**Proof sketch.** The guard puts the action by which the next step is chosen, whatever stood there. If it chooses the
end, it has said why, and nothing follows. Otherwise it has said nothing, so that the messages that the next step
extends are the initial ones, while the steps are those with the guard behind them. -/
theorem run_extends_history (state final : Datum) (around : Surroundings) (s after : Session)
    (h : (run state).runOn around s = (.ok final, after)) :
    ∃ (step : Step) (steps messages : List Datum) (text : String),
      Holds state "steps" steps ∧ Holds state "messages" messages ∧
      final.entry? "steps" = some (.list (steps ++ .text "guardrails" :: step.trail)) ∧
      final.entry? "messages" = some (.list (messages ++ [remark text])) ∧
      final.entry? "next_action" = some (.text "end") ∧
      ∀ key ∈ inputs, final.entry? key = state.entry? key := by
  unfold run at h
  obtain ⟨first, s₁, hfirst, h⟩ := Action.runOn_bind_eq_ok.mp h
  obtain ⟨middle, s₂, hmiddle, h⟩ := Action.runOn_bind_eq_ok.mp h
  obtain ⟨step, s₃, hstep, h⟩ := Action.runOn_bind_eq_ok.mp h
  obtain ⟨second, s₄, hsecond, h⟩ := Action.runOn_bind_eq_ok.mp h
  obtain ⟨hguard, -⟩ := Action.runOn_reading_eq_ok.mp hfirst
  obtain ⟨hmiddle, -⟩ := Action.runOn_ofResult_eq_ok.mp hmiddle
  obtain ⟨hstep, -⟩ := Action.runOn_ofResult_eq_ok.mp hstep
  obtain ⟨hfinal, -⟩ := Action.runOn_ofResult_eq_ok.mp h
  have hthrough := entry?_updated hmiddle
  have hout := entry?_updated hfinal
  obtain ⟨⟨⟨steps, hsteps, hput⟩, hinputs⟩, chosen, haction, hmessages⟩ := of_guard hguard
  -- the step that is performed is the one that the guard chose
  obtain rfl : chosen = step := by
    have hasked : middle.entry? "next_action" = some (.text chosen.action) := by
      rw [hthrough, haction, Option.some_or]
    exact Except.ok.inj ((next_of_asked hasked).symm.trans hstep)
  have hmid : middle.entry? "steps" = some (.list (steps ++ [.text "guardrails"])) := by
    rw [hthrough, hput, Option.some_or]
  rcases of_perform hsecond with ⟨rfl, rfl⟩ | ⟨hgoes, name, htrail, ⟨⟨before, hbefore, hput'⟩, hinputs'⟩, hconcludes⟩
  · -- the guard ended the run
    obtain ⟨-, hconcludes⟩ := hmessages.resolve_right fun hgoes => hgoes.1 rfl
    obtain ⟨messages, text, hheld, hsaid⟩ := hconcludes.messages
    have hsame : ∀ key, final.entry? key = middle.entry? key := fun key => by rw [hout]; rfl
    refine ⟨.finish, steps, messages, text, hsteps, hheld, by rw [hsame, hmid]; rfl, ?_, ?_, fun key hkey => ?_⟩
    · rw [hsame, hthrough, hsaid, Option.some_or]
    · rw [hsame, hthrough, hconcludes.action, Option.some_or]
    · rw [hsame, hthrough, hinputs key hkey, Option.none_or]
  · -- another step went on where the guard had stopped
    obtain ⟨-, hsilent⟩ := hmessages.resolve_left fun hend => hgoes hend.1
    obtain ⟨messages, text, hheld, hsaid⟩ := hconcludes.messages
    obtain rfl := hbefore.eq_of_entry? hmid
    have hheld' : Holds state "messages" messages := by
      refine hheld.congr ?_
      rw [hthrough, hsilent, Option.none_or]
    refine ⟨chosen, steps, messages, text, hsteps, hheld', ?_, ?_, ?_, fun key hkey => ?_⟩
    · rw [hout, hput', Option.some_or, htrail, List.append_assoc]
      rfl
    · rw [hout, hsaid, Option.some_or]
    · rw [hout, hconcludes.action, Option.some_or]
    · rw [hout, hinputs' key hkey, Option.none_or, hthrough, hinputs key hkey, Option.none_or]

/-- A question, with a history that asks for something else. -/
def asking : Datum :=
  .object [("mode", .text "Chat"), ("question", .text "where"), ("k", .int 3), ("steps", .list [.text "start"]),
    ("messages", .list [message "human" "where"]), ("next_action", .text "run_analyze")]

/-- The guard lets the question pass, and it is answered. -/
lemma exists_run_asking :
    ∃ final after, (run asking).runOn {} { files := Files.empty } = (.ok final, after) := by
  have hdone : ((run asking).runOn {} { files := Files.empty }).1.toOption.isSome = true := by decide +kernel
  obtain ⟨final, hfinal⟩ := Option.isSome_iff_exists.mp hdone
  exact ⟨final, _, Prod.ext (Outcome.eq_ok_of_toOption hfinal) rfl⟩

/-- The question is answered from an empty store, and the history goes on behind the two items that were there. -/
theorem run_asking :
    ∃ final after, (run asking).runOn {} { files := Files.empty } = (.ok final, after) ∧
      ∃ (step : Step) (text : String),
        final.entry? "steps" = some (.list (.text "start" :: .text "guardrails" :: step.trail)) ∧
        final.entry? "messages" = some (.list [message "human" "where", remark text]) ∧
        final.entry? "next_action" = some (.text "end") ∧ ∀ key ∈ inputs, final.entry? key = asking.entry? key := by
  obtain ⟨final, after, hrun⟩ := exists_run_asking
  obtain ⟨step, steps, messages, text, hsteps, hmessages, hsteps', hmessages', haction, hinputs⟩ :=
    run_extends_history asking final {} _ after hrun
  have hstart : asking.entry? "steps" = some (.list [.text "start"]) := by cbv
  have hsaid : asking.entry? "messages" = some (.list [message "human" "where"]) := by cbv
  obtain rfl := hsteps.eq_of_entry? hstart
  obtain rfl := hmessages.eq_of_entry? hsaid
  exact ⟨final, after, hrun, step, text, hsteps', hmessages', haction, hinputs⟩

end CodeAudit.Agent
