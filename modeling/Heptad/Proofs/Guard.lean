import Heptad.Proofs.Field.Replay
import Heptad.Proofs.Stack.Memoryless
import Heptad.Proofs.Stack.Reentrant

/-!
# One call at a time

A call of an evaluator, of either strategy, is refused iff the guard is held. It then
changes nothing; otherwise it gives the guard back, however it ends. So the guard is
held iff it was taken, and not by a call, since it was last given back.

* `Refused`: the outcome of a call that another one is in flight for;
* `Guarded`: how a call treats the guard;
* `Field.Evaluator.guarded_evaluate`, `Stack.Evaluator.guarded_evaluate`: every call
  treats it so;
* `one_call_in_flight`: hence after any sequence of operations, and for the calls
  that operands make as well.
-/

namespace Heptad

/-! ## Refused calls -/

section

variable {α : Type}

/-- A call has been refused because another one is in flight. -/
def Refused (outcome : Except Failure α) : Prop :=
  ∃ reason, outcome = .error (.evaluation reason) ∧ reason.kind = .concurrent

/-- Which failures are refusals has nothing to do with what the call would return. -/
theorem refused_error_iff {failure : Failure} : Refused (.error failure : Except Failure α) ↔
    ∃ reason, failure = .evaluation reason ∧ reason.kind = .concurrent :=
  exists_congr fun _ => and_congr_left fun _ => (Except.error.injEq _ _).to_iff

theorem not_refused_ok (a : α) : ¬ Refused (.ok a) := by
  rintro ⟨_, h, -⟩
  cases h

theorem not_refused_fault (f : Fault) : ¬ Refused (.error (.fault f) : Except Failure α) := by
  rintro ⟨_, h, -⟩
  cases h

theorem not_refused_of_kind {reason : EvalError} (h : reason.kind ≠ .concurrent) :
    ¬ Refused (.error (.evaluation reason) : Except Failure α) := by
  rintro ⟨_, hr, hk⟩
  cases hr
  exact h hk

theorem not_refused_raised {reason : EvalError} (h : reason.kind ≠ .concurrent) :
    ¬ Refused (.error reason.raised : Except Failure α) := by
  rw [EvalError.raised]
  split
  · exact not_refused_of_kind h
  · exact not_refused_fault _

end

/-- How a call treats the guard of an evaluator: it is refused iff the guard is held,
    and then writes and changes nothing. However it ends, the guard is as it was. -/
structure Guarded {σ ε α : Type} (shell : σ → Shell ε) (e : σ) (call : Call σ α) : Prop where
  refused_iff : Refused call.outcome ↔ (shell e).inFlight = true
  unchanged : (shell e).inFlight = true → call.lines = [] ∧ call.after = e
  inFlight : (shell call.after).inFlight = (shell e).inFlight

/-- A strategy does not refuse calls, so a call is refused by the guard alone. -/
theorem Shell.guarded_call {ε α : Type} (s : Shell ε) (derivation : Value)
    {strategy : List Value → Session ε → Except Failure α × Session ε}
    (h : ∀ steps session, ¬ Refused (strategy steps session).1) :
    Guarded id s (s.call derivation strategy) := by
  refine ⟨?_, fun hheld => ?_, s.inFlight_after_call derivation strategy⟩
  · cases hf : s.inFlight with
    | true =>
      rw [call_of_inFlight hf]
      exact iff_of_true ⟨_, rfl, rfl⟩ hf
    | false =>
      refine iff_of_false ?_ (Bool.eq_false_iff.1 hf)
      cases hi : derivation.items? with
      | error f =>
        rw [call_of_not_iterable hf hi]
        exact not_refused_fault f
      | ok steps =>
        rw [call_of_steps hf hi]
        exact h steps s.opening
  · have hheld : s.inFlight = true := hheld
    rw [call_of_inFlight hheld]
    exact ⟨rfl, rfl⟩

/-! ## The field evaluator -/

namespace Field.Evaluator

theorem not_refused_strategy (t : Table3) (state : State) (steps : List Value)
    (session : Session Event) : ¬ Refused (strategy t state steps session).1 := by
  rw [strategy]
  split
  · rename_i reason hreason
    obtain ⟨_, _, -, hrejected⟩ := rejected_of_acceptAll hreason
    cases hrejected with
    | step | ordinal => exact not_refused_raised (by rintro ⟨⟩)
  · exact not_refused_ok _

theorem guarded_evaluate (e : Evaluator) (derivation : Value) :
    Guarded Evaluator.shell e (e.evaluate derivation) := by
  obtain ⟨hrefused, hunchanged, hguard⟩ :=
    e.shell.guarded_call derivation (not_refused_strategy e.table e.state)
  rw [evaluate]
  split
  · rename_i state hs
    rw [hs] at hrefused
    have hfree : e.shell.inFlight ≠ true := mt hrefused.2 (not_refused_ok state)
    exact ⟨iff_of_false (not_refused_ok _) hfree, fun hheld => absurd hheld hfree, hguard⟩
  · rename_i failure hs
    rw [hs] at hrefused
    refine ⟨refused_error_iff.trans (refused_error_iff.symm.trans hrefused), fun hheld => ?_,
      hguard⟩
    obtain ⟨hlines, hafter⟩ := hunchanged hheld
    exact ⟨hlines, congrArg (fun shell => { e with shell }) hafter⟩

/-- What an operation does to the guard, if anything. -/
def Operation.guard : Operation → Option Bool
  | evaluate _ | reset => none
  | lock => some true
  | unlock => some false

theorem inFlight_runAll (e : Evaluator) (ops : List Operation) :
    (e.runAll ops).shell.inFlight =
      (ops.filterMap Operation.guard).getLast?.getD e.shell.inFlight :=
  Shell.inFlight_foldl Evaluator.shell Operation.apply Operation.guard
    (fun e op => by
      cases op with
      | evaluate derivation => exact (e.guarded_evaluate derivation).inFlight
      | reset | lock => rfl
      | unlock => exact e.shell.inFlight_unlock) e ops

end Field.Evaluator

/-! ## The stack evaluator -/

namespace Stack

variable {limit : Value} {c : Config}

theorem not_refused_of_enter {depth : Nat} {failure : Failure}
    (h : enter limit depth = .error failure) :
    ¬ Refused (.error failure : Except Failure Value) := by
  rw [enter] at h
  split at h
  · cases h
    exact not_refused_fault _
  · cases h
    exact not_refused_raised (by rintro ⟨⟩)
  · cases h

/-- No transition refuses the call it is part of; an operand that is refused is the
    reason of another failure. -/
theorem not_refused_of_transition {outcome : Except Failure Value} {session : Session Event}
    (h : Config.Transition limit c (.halted outcome session)) : ¬ Refused outcome := by
  cases h with
  | finished => exact not_refused_ok _
  | emptied => exact not_refused_of_kind nofun
  | undescribed => exact not_refused_fault _
  | unwarned hr hv he =>
    rw [Config.eq_tooManyDigits_of_ending he]
    exact not_refused_fault _
  | failed hr hf =>
    cases hf with
    | target ht =>
      refine not_refused_raised ?_
      rcases target_eq_error ht with rfl | ⟨_, rfl⟩ | ⟨_, rfl⟩ <;> exact nofun
    | operands | primitive | condOperands | notAStep => exact not_refused_raised nofun
    | nesting hs hv he => exact not_refused_of_enter he

theorem not_refused_run (limit : Value) (c : Config) : ¬ Refused (run limit c).1 := by
  induction c using run.induct limit with
  | case1 c outcome session hn =>
    rw [run_of_halted hn]
    exact not_refused_of_transition (Config.next_eq_iff.1 hn)
  | case2 c c' hn ih =>
    rw [run_of_running hn]
    exact ih

namespace Evaluator

theorem not_refused_strategy (limit : Value) (steps : List Value) (session : Session Event) :
    ¬ Refused (strategy limit steps session).1 := by
  have hrun (s : Session Event) : ¬ Refused (runDerivation limit steps s).1 := by
    rw [runDerivation]
    cases he : enter limit 0 with
    | error failure => exact not_refused_of_enter he
    | ok _ => exact not_refused_run _ _
  rw [strategy]
  split
  · exact not_refused_ok _
  · rename_i failure _ hr
    exact congrArg Prod.fst hr ▸ hrun _

theorem guarded_evaluate (e : Evaluator) (derivation : Value) :
    Guarded Evaluator.shell e (e.evaluate derivation) := by
  obtain ⟨hrefused, hunchanged, hguard⟩ :=
    e.shell.guarded_call derivation (not_refused_strategy e.limit)
  refine ⟨hrefused, fun hheld => ?_, hguard⟩
  obtain ⟨hlines, hafter⟩ := hunchanged hheld
  exact ⟨hlines, congrArg (fun shell => { e with shell }) hafter⟩

end Evaluator

end Stack

/-! ## Calls of both, and calls made by operands -/

namespace Stack

/-- Calls end alike if they return or fail alike, up to what operands carry, and have
    written, counted, warned of and recorded the same. -/
structure EndAlike (a b : Call Evaluator Value) : Prop where
  outcome : muteOutcome a.outcome = muteOutcome b.outcome
  /-- Failures are worded alike. -/
  message : ∀ failure, b.outcome = .error failure →
    ∃ failure', a.outcome = .error failure' ∧ failure'.mute = failure.mute ∧
      failure'.message = failure.message
  lines : a.lines = b.lines
  steps : a.after.shell.steps = b.after.shell.steps
  warnings : a.after.shell.warnings = b.after.shell.warnings
  events : a.after.shell.tracer.events.map Event.mute = b.after.shell.tracer.events.map Event.mute

/-- Outcomes that only differ in what is carried fail for the same reason. -/
theorem message_of_muteOutcome_eq {a b : Except Failure Value} (h : muteOutcome a = muteOutcome b)
    {failure : Failure} (hb : b = .error failure) :
    ∃ failure', a = .error failure' ∧ failure'.mute = failure.mute ∧
      failure'.message = failure.message := by
  subst hb
  cases a with
  | ok v => cases h
  | error failure' =>
    have hmute : failure'.mute = failure.mute := Except.error.inj h
    refine ⟨failure', rfl, hmute, ?_⟩
    rw [← failure'.message_mute, hmute, failure.message_mute]

theorem endAlike_of_mute_eq {e : Evaluator} (h : e.shell.inFlight = false) {D D' : Value}
    (hD : D'.mute = D.mute) : EndAlike (e.evaluate D') (e.evaluate D) := by
  obtain ⟨houtcome, hlines, hafter⟩ := Evaluator.evaluate_of_mute_eq h hD
  have hsteps := congrArg (fun e => e.shell.steps) hafter
  have hwarnings := congrArg (fun e => e.shell.warnings) hafter
  have hevents := congrArg (fun e => e.shell.tracer.events) hafter
  exact ⟨houtcome, fun _ => message_of_muteOutcome_eq houtcome, hlines, hsteps, hwarnings, hevents⟩

end Stack

/-- One call at a time. Whatever calls were made of an evaluator of either strategy, and
    whoever took its guard and gave it back, the guard is held iff it was taken since it
    was last given back; and the next call is refused iff it is held, then changing
    nothing, and leaves it as it was, however it ends. If a call of a stack evaluator
    comes, however deep, to a multiplication by an operand that calls back, then this
    inner call is refused and changes nothing, and the outer one fails for this reason,
    or because the other operand has no text, with the count, warnings and trace of what
    was run before, and gives the guard back. What such operands carry makes no
    difference to how a call ends. -/
theorem one_call_in_flight (f : Field.Evaluator) (e : Stack.Evaluator) :
    (∀ (ops : List Field.Evaluator.Operation) (derivation : Value),
      (f.runAll ops).shell.inFlight =
        (ops.filterMap Field.Evaluator.Operation.guard).getLast?.getD f.shell.inFlight ∧
      Guarded Field.Evaluator.shell (f.runAll ops) ((f.runAll ops).evaluate derivation)) ∧
    (∀ (ops : List Stack.Evaluator.Operation) (derivation : Value),
      (e.runAll ops).shell.inFlight =
        (ops.filterMap Stack.Evaluator.Operation.guard).getLast?.getD e.shell.inFlight ∧
      Guarded Stack.Evaluator.shell (e.runAll ops) ((e.runAll ops).evaluate derivation)) ∧
    ∀ (D : Value) (steps : List Value), e.shell.inFlight = false →
      D.items? = .ok steps →
      (∀ (c : Stack.Config) (carried : List Value) (other : Value),
        Stack.enter e.limit 0 = .ok () →
        Stack.ComesTo e.limit ⟨.start steps, [], e.opening steps⟩ c →
        c.CallsBack carried other →
        Stack.Evaluator.evaluate ⟨c.ticked.session.held, e.limit⟩ (.list carried) =
          ⟨(c.ticked.session.callback carried).mapError .evaluation, [],
            ⟨c.ticked.session.held, e.limit⟩⟩ ∧
        Refused ((c.ticked.session.callback carried).mapError .evaluation) ∧
        (e.evaluate D).outcome =
          .error (if other.isShowable then
            .evaluation (Stack.reentry e.shell.tracer.source carried other)
            else .fault .tooManyDigits) ∧
        (e.evaluate D).after.shell.steps = c.session.steps + 1 ∧
        (e.evaluate D).after.shell.warnings = c.session.warnings ∧
        (e.evaluate D).after.shell.tracer.events = c.session.tracer.events ∧
        (e.evaluate D).after.shell.inFlight = false) ∧
      ∀ D' : Value, D'.mute = D.mute → Stack.EndAlike (e.evaluate D') (e.evaluate D) := by
  refine ⟨fun ops derivation => ⟨f.inFlight_runAll ops, (f.runAll ops).guarded_evaluate _⟩,
    fun ops derivation => ⟨e.inFlight_runAll ops, (e.runAll ops).guarded_evaluate _⟩,
    fun D steps h hi => ⟨?_, fun D' => Stack.endAlike_of_mute_eq h⟩⟩
  intro c carried other he hc hb
  obtain ⟨houtcome, hafter⟩ := Stack.Evaluator.evaluate_of_callsBack h hi he hc hb
  rw [Stack.raised_reentry] at houtcome
  refine ⟨Stack.Evaluator.evaluate_held _ _ _, ⟨_, rfl, rfl⟩, houtcome, ?_⟩
  rw [hafter]
  exact ⟨rfl, rfl, rfl, rfl⟩

/-- An operand that calls back from inside a branch makes the call fail in its eighth
    step, and one that carries something else makes it end alike. Afterwards the guard
    is free; once somebody has taken it, a call is refused. -/
theorem one_call_in_flight_of_nestedDoubling :
    ((Stack.Evaluator.new .null (.int 5)).evaluate
        (.list (Stack.nestedDoubling [.literal (.int 1)]))).outcome =
      .error (.evaluation (Stack.reentry Stack.Evaluator.name [.literal (.int 1)] (.int 2))) ∧
    ((Stack.Evaluator.new .null (.int 5)).evaluate
        (.list (Stack.nestedDoubling [.literal (.int 1)]))).after.shell.steps = 8 ∧
    Stack.EndAlike
      ((Stack.Evaluator.new .null (.int 5)).evaluate (.list (Stack.nestedDoubling [.null])))
      ((Stack.Evaluator.new .null (.int 5)).evaluate
        (.list (Stack.nestedDoubling [.literal (.int 1)]))) ∧
    Refused (((Stack.Evaluator.new .null (.int 5)).runAll
      [.evaluate (.list (Stack.nestedDoubling [.null])), .lock]).evaluate (.list [])).outcome := by
  obtain ⟨-, hstack, hreentrant⟩ := one_call_in_flight (.standard .null) (.new .null (.int 5))
  have henter : Stack.enter (.int 5) 0 = .ok () := Stack.enter_int_eq_ok.2 (by decide)
  obtain ⟨c, hc, hb, hsteps⟩ := Stack.comesTo_nestedDoubling [.literal (.int 1)]
    (s := (Stack.Evaluator.new .null (.int 5)).opening
      (Stack.nestedDoubling [.literal (.int 1)])) rfl
  obtain ⟨hcalls, hcarried⟩ := hreentrant
    (.list (Stack.nestedDoubling [.literal (.int 1)])) _ rfl rfl
  obtain ⟨-, -, houtcome, hcount, -⟩ := hcalls c _ _ henter hc hb
  obtain ⟨hguard, hguarded⟩ := hstack
    [.evaluate (.list (Stack.nestedDoubling [.null])), .lock] (.list [])
  exact ⟨houtcome, hcount.trans (congrArg (· + 1) hsteps), hcarried _ rfl,
    hguarded.refused_iff.2 hguard⟩

end Heptad
