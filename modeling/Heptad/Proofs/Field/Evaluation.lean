import Heptad.Field.Evaluator
import Heptad.Proofs.Outcome
import Heptad.Proofs.Session

/-!
# How a call of the field evaluator ends

A call is refused because the guard is held, fails because what it was given
cannot be gone through or has a step that is no morphism, or is *accepted*. Only
an accepted call touches the state, and what it does to it is the run of the
morphisms it was given:

* `state_evaluate_of_error`: a call that fails leaves field and history alone;
* `accepted_of_evaluate_eq_ok`: a call that returns was given morphisms only,
  and was made while the guard was free;
* `evaluate_of_accepted`: such a call returns the field after their run and
  leaves the state after it;
* `ends`: there is no other way for a call to end, and if a derivation is not
  accepted then one of its steps is to blame (`rejected_of_acceptAll`).
-/

namespace Heptad

namespace Field

/-! ## Accepted steps -/

/-- The place of a step shows only in the reason for which it is refused. -/
theorem accept_of_index {i j : Nat} {v : Value} {m : Morphism} (h : accept i v = .ok m) :
    accept j v = .ok m := by
  cases v with
  | int | morphism => exact h
  | null | bool | float | str | bytes | list | tuple | mapping | literal | sub | noRule
  | reentrant => cases h

/-- Several steps are accepted iff each one is. -/
theorem acceptAll_cons {i : Nat} {v : Value} {vs : List Value} {ms : List Morphism} :
    acceptAll i (v :: vs) = .ok ms ↔
      ∃ m ms', accept i v = .ok m ∧ acceptAll (i + 1) vs = .ok ms' ∧ m :: ms' = ms := by
  rw [acceptAll, bind_eq_ok]
  refine exists_congr fun m => ?_
  rw [bind_eq_ok]
  constructor
  · rintro ⟨hm, ms', hms, h⟩
    exact ⟨ms', hm, hms, Except.ok.inj h⟩
  · rintro ⟨ms', hm, hms, rfl⟩
    exact ⟨hm, ms', hms, rfl⟩

/-- A derivation accepted in one place is accepted in any other. -/
theorem acceptAll_of_index {i j : Nat} {vs : List Value} {ms : List Morphism}
    (h : acceptAll i vs = .ok ms) : acceptAll j vs = .ok ms := by
  induction vs generalizing i j ms with
  | nil => exact h
  | cons v vs ih =>
    obtain ⟨m, ms', hm, hms, rfl⟩ := acceptAll_cons.1 h
    exact acceptAll_cons.2 ⟨m, ms', accept_of_index hm, ih hms, rfl⟩

/-- Two accepted derivations are accepted one behind the other. -/
theorem acceptAll_append {i j k : Nat} {vs ws : List Value} {ms ns : List Morphism}
    (hv : acceptAll i vs = .ok ms) (hw : acceptAll j ws = .ok ns) :
    acceptAll k (vs ++ ws) = .ok (ms ++ ns) := by
  induction vs generalizing i k ms with
  | nil =>
    cases hv
    exact acceptAll_of_index hw
  | cons v vs ih =>
    obtain ⟨m, ms', hm, hms, rfl⟩ := acceptAll_cons.1 hv
    exact acceptAll_cons.2 ⟨m, ms' ++ ns, accept_of_index hm, ih hms, rfl⟩

/-- The reasons for which a step is rejected: it is no morphism, or an integer
    that is none of the ordinals. -/
inductive Rejected (index : Nat) : Value → EvalError → Prop
  | step {v : Value} : (∀ m, v ≠ .morphism m) → (∀ i, v ≠ .int i) →
      Rejected index v (.notAMorphism index v)
  | ordinal {i : Int} : Morphism.ofInt? i = none → Rejected index (.int i) (.outsideBasis i)

theorem rejected_of_accept {index : Nat} {v : Value} {reason : EvalError}
    (h : accept index v = .error reason) : Rejected index v reason := by
  cases v with
  | morphism => cases h
  | int i =>
    rw [accept, Value.toMorphism?] at h
    split at h
    · cases h
    · cases h
      exact .ordinal ‹_›
  | null | bool | float | str | bytes | list | tuple | mapping | literal | sub | noRule
  | reentrant =>
    cases h
    refine .step ?_ ?_ <;> exact fun _ h => Value.noConfusion h

/-- A derivation that is not accepted has a step that is rejected. -/
theorem rejected_of_acceptAll {index : Nat} {vs : List Value} {reason : EvalError}
    (h : acceptAll index vs = .error reason) :
    ∃ n v, vs[n]? = some v ∧ Rejected (index + n) v reason := by
  induction vs generalizing index with
  | nil => cases h
  | cons v vs ih =>
    cases hv : accept index v with
    | error r =>
      rw [acceptAll, hv] at h
      cases h
      exact ⟨0, v, rfl, rejected_of_accept hv⟩
    | ok m =>
      cases hvs : acceptAll (index + 1) vs with
      | error r =>
        rw [acceptAll, hv, hvs] at h
        cases h
        obtain ⟨n, w, hw, hr⟩ := ih hvs
        exact ⟨n + 1, w, hw, Nat.add_right_comm index 1 n ▸ hr⟩
      | ok ms =>
        rw [acceptAll, hv, hvs] at h
        cases h

/-- The reason shows the step, so it can be worded if the step has a text. -/
theorem Rejected.isShowable {index : Nat} {v : Value} {reason : EvalError}
    (h : Rejected index v reason) : reason.isShowable = v.isShowable := by
  cases h with
  | step | ordinal => rfl

/-- If all steps have a text, the reason for which one is rejected can be worded. -/
theorem raised_of_acceptAll {index : Nat} {vs : List Value} {reason : EvalError}
    (h : acceptAll index vs = .error reason) (hs : Value.areShowable vs = true) :
    reason.raised = .evaluation reason := by
  obtain ⟨n, v, hv, hr⟩ := rejected_of_acceptAll h
  exact EvalError.raised_of_showable
    (hr.isShowable.trans (Value.areShowable_iff.1 hs v (List.mem_of_getElem? hv)))

/-! ## Runs -/

namespace State

variable (t : Table3)

/-- A run of two parts is the run of the second from where the first ended. -/
theorem run_append (s : State) (ms ns : List Morphism) :
    s.run t (ms ++ ns) = (s.run t ms).run t ns := List.foldl_append

end State

/-- What is recorded of a run does not influence its state. -/
theorem fst_foldl_transition (t : Table3) (s : State) (session : Session Event)
    (ms : List Morphism) : (ms.foldl (transition t) (s, session)).1 = s.run t ms := by
  induction ms generalizing s session with
  | nil => rfl
  | cons m ms ih => exact ih _ _

theorem fst_strategy {t : Table3} {s : State} {steps : List Value} {ms : List Morphism}
    (h : acceptAll 1 steps = .ok ms) (session : Session Event) :
    (Evaluator.strategy t s steps session).1 = .ok (s.run t ms) := by
  rw [Evaluator.strategy, h]
  exact congrArg Except.ok (fst_foldl_transition t s _ ms)

/-! ## Calls -/

namespace Evaluator

variable {e : Evaluator} {derivation : Value}

/-- A call never touches the table. -/
theorem table_evaluate (e : Evaluator) (derivation : Value) :
    (e.evaluate derivation).after.table = e.table := by
  rw [evaluate]
  split <;> rfl

/-- A call that fails, for whatever reason, leaves field and history alone. -/
theorem state_evaluate_of_error {failure : Failure}
    (h : (e.evaluate derivation).outcome = .error failure) :
    (e.evaluate derivation).after.state = e.state := by
  rw [evaluate] at h ⊢
  split at h
  · cases h
  · rfl

/-- A call that returns was made while the guard was free, and with steps that
    are all morphisms. -/
theorem accepted_of_evaluate_eq_ok {field : Field}
    (h : (e.evaluate derivation).outcome = .ok field) :
    e.shell.inFlight = false ∧
      ∃ steps ms, derivation.items? = .ok steps ∧ acceptAll 1 steps = .ok ms := by
  rw [evaluate] at h
  split at h
  · rename_i s hs
    cases hf : e.shell.inFlight with
    | true => rw [Shell.call_of_inFlight hf] at hs; cases hs
    | false =>
      refine ⟨rfl, ?_⟩
      cases hi : derivation.items? with
      | error f => rw [Shell.call_of_not_iterable hf hi] at hs; cases hs
      | ok steps =>
        rw [Shell.call_of_steps hf hi] at hs
        cases ha : acceptAll 1 steps with
        | error r => rw [strategy, ha] at hs; cases hs
        | ok ms => exact ⟨steps, ms, rfl, ha⟩
  · cases h

/-- A call with morphisms, made while the guard is free, runs them. -/
theorem evaluate_of_accepted {steps : List Value} {ms : List Morphism}
    (hf : e.shell.inFlight = false) (hi : derivation.items? = .ok steps)
    (ha : acceptAll 1 steps = .ok ms) :
    (e.evaluate derivation).outcome = .ok (e.state.run e.table ms).field ∧
      (e.evaluate derivation).after.state = e.state.run e.table ms := by
  have h : (e.shell.call derivation (strategy e.table e.state)).outcome =
      .ok (e.state.run e.table ms) := by
    rw [Shell.call_of_steps hf hi]
    exact fst_strategy ha _
  rw [evaluate, h]
  exact ⟨rfl, rfl⟩

/-! ## How a call ends -/

/-- Why a call fails is told by the guard, and else by what it was given. -/
theorem outcome_of_call_error {failure : Failure}
    (h : (e.shell.call derivation (strategy e.table e.state)).outcome = .error failure) :
    (e.evaluate derivation).outcome = .error failure := by
  rw [evaluate, h]

/-- How a call ends: refused because the guard is held, or because of a step;
    failed on something that cannot be gone through; or accepted. -/
inductive Ends (e : Evaluator) (derivation : Value) : Except Failure Field → Prop
  | busy : e.shell.inFlight = true →
      Ends e derivation (.error (.evaluation (.inFlight e.shell.tracer.source)))
  | unreadable {f : Fault} : e.shell.inFlight = false → derivation.items? = .error f →
      Ends e derivation (.error (.fault f))
  | rejected {steps : List Value} {reason : EvalError} : e.shell.inFlight = false →
      derivation.items? = .ok steps → acceptAll 1 steps = .error reason →
      Ends e derivation (.error reason.raised)
  | accepted {steps : List Value} {ms : List Morphism} : e.shell.inFlight = false →
      derivation.items? = .ok steps → acceptAll 1 steps = .ok ms →
      Ends e derivation (.ok (e.state.run e.table ms).field)

/-- Every call ends in one of these ways. -/
theorem ends (e : Evaluator) (derivation : Value) :
    Ends e derivation (e.evaluate derivation).outcome := by
  cases hf : e.shell.inFlight with
  | true =>
    rw [outcome_of_call_error (by rw [Shell.call_of_inFlight hf])]
    exact .busy hf
  | false =>
    cases hi : derivation.items? with
    | error f =>
      rw [outcome_of_call_error (by rw [Shell.call_of_not_iterable hf hi])]
      exact .unreadable hf hi
    | ok steps =>
      cases ha : acceptAll 1 steps with
      | error reason =>
        rw [outcome_of_call_error (by rw [Shell.call_of_steps hf hi, strategy, ha])]
        exact .rejected hf hi ha
      | ok ms =>
        rw [(evaluate_of_accepted hf hi ha).1]
        exact .accepted hf hi ha

end Evaluator

end Field

end Heptad
