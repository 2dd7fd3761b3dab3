import Heptad.Proofs.Debug
import Heptad.Proofs.Stack.Composition

/-!
# Calls one after the other

Between calls a stack evaluator keeps a count, warnings and a trace, but only to be
looked at: a call begins by dropping them, and nothing else of an earlier call is
left. So whatever was done to an evaluator, a call that is admitted is the first call
of a new one.

* `Operation`, `Evaluator.runAll`: what can be done to an evaluator;
* `exists_run_of_session`: what a run does depends on the count of steps and the name
  of the evaluator, and on nothing else in its session;
* `Evaluator.evaluate_of_alike`: so evaluators of the same limit are called alike;
* `memoryless`: and one that was used is called like a new one.
-/

namespace Heptad.Stack

/-! ## Runs in two sessions -/

/-- A run of a derivation, from wherever it is, ends in the same way in any session with
    as many steps that records the same events, and adds the same to it. -/
theorem exists_run_of_session {limit : Value} {f : Frame} {s s' t : Session Event}
    {outcome : Except Failure Value} (hsteps : s'.steps = s.steps)
    (hsource : s'.tracer.source = s.tracer.source) (h : run limit ⟨f, [], s⟩ = (outcome, t))
    (halike : AdmitAlike s s' t.tracer.events) :
    ∃ t', run limit ⟨f, [], s'⟩ = (outcome, t') ∧ Paired s s' t t' := by
  rw [run_eq_runSteps limit 0] at h ⊢
  cases hr : runSteps limit ([] : List Pending).length ⟨f, [], s⟩ with
  | halted outcome' t₁ =>
    obtain ⟨rfl, rfl⟩ : outcome' = outcome ∧ t₁ = t := Prod.mk.inj
      ((congrArg (Next.run limit) hr).symm.trans h)
    obtain ⟨log, ht, hrun⟩ := runSteps_before hr [] hsteps hsource halike
    rw [Frame.onto_start] at hrun
    exact ⟨log.addTo s', congrArg (Next.run limit) hrun, log, ht, rfl⟩
  | running c =>
    have hend : run limit c = (outcome, t) := (congrArg (Next.run limit) hr).symm.trans h
    obtain ⟨hrest, hd⟩ := atEnd_of_runSteps hr
    have hcallers : c.callers = [] := List.eq_nil_of_length_eq_zero hd
    obtain ⟨-, -, log, hs, hrun⟩ :=
      runSteps_onto hr (.start []) rfl (halike.mono (events_of_run hend))
    rw [Frame.onto_start, Frame.onto_start] at hrun
    have hpaired : Paired s s' c.session (log.addTo s') := ⟨log, hs, rfl⟩
    have hrun' : runSteps limit 0 ⟨f, [], s'⟩ = .running ⟨c.current, [], log.addTo s'⟩ :=
      hrun.trans (runSteps_of_atEnd limit ⟨hrest, rfl⟩)
    rw [hrun', Next.run]
    cases hb : c.current.stack.getLast? with
    | none =>
      have hempty := List.getLast?_eq_none_iff.1 hb
      obtain ⟨rfl, rfl⟩ := Prod.mk.inj ((run_of_empty limit hrest hempty).symm.trans hend)
      exact ⟨_, run_of_empty limit hrest hempty, hpaired⟩
    | some v =>
      have hsame : (⟨c.current, [], log.addTo s'⟩ : Config).current.stack = c.current.stack := rfl
      cases he : c.ending with
      | error failure =>
        obtain ⟨rfl, rfl⟩ := Prod.mk.inj ((run_of_unwarned limit hrest hb he).symm.trans hend)
        exact ⟨_, run_of_unwarned limit hrest hb (ending_eq_error_of_stack hsame he), hpaired⟩
      | ok session =>
        have hbottom := run_of_bottom limit hrest hcallers hb he
        obtain ⟨rfl, rfl⟩ := Prod.mk.inj (hbottom.symm.trans hend)
        obtain ⟨t', he', ht'⟩ := hpaired.ending hsame he
        exact ⟨t', run_of_bottom limit hrest rfl hb he', ht'⟩

/-- A run of a derivation that may be too deep already does so too. -/
theorem exists_runDerivation_of_session {limit : Value} {steps : List Value}
    {s s' t : Session Event} {outcome : Except Failure Value} (hsteps : s'.steps = s.steps)
    (hsource : s'.tracer.source = s.tracer.source)
    (h : runDerivation limit steps s = (outcome, t))
    (halike : AdmitAlike s s' t.tracer.events) :
    ∃ t', runDerivation limit steps s' = (outcome, t') ∧ Paired s s' t t' := by
  rw [runDerivation] at h ⊢
  cases henter : enter limit 0 with
  | error failure =>
    rw [henter] at h
    obtain ⟨rfl, rfl⟩ := Prod.mk.inj h
    exact ⟨s', rfl, .refl _ _⟩
  | ok _ =>
    rw [henter] at h
    exact exists_run_of_session hsteps hsource h halike

/-- A run adds a log to its session. -/
theorem exists_log_of_runDerivation (limit : Value) (steps : List Value) (s : Session Event) :
    ∃ outcome, ∃ log : Log, runDerivation limit steps s = (outcome, log.addTo s) := by
  cases hrun : runDerivation limit steps s with
  | mk outcome t =>
    obtain ⟨-, -, log, rfl, -⟩ :=
      exists_runDerivation_of_session rfl rfl hrun (admitAlike_of_debug rfl _)
    exact ⟨outcome, log, rfl⟩

namespace Evaluator

/-! ## Calls of two evaluators -/

/-- What is to be seen of a call but the lines it writes. -/
structure Seen where
  outcome : Except Failure Value
  steps : Nat
  warnings : List String
  events : List Event

/-- What is to be seen of a call of an evaluator. -/
def seen (e : Evaluator) (derivation : Value) : Seen :=
  let call := e.evaluate derivation
  ⟨call.outcome, call.after.shell.steps, call.after.shell.warnings, call.after.shell.tracer.events⟩

variable {e e' : Evaluator}

/-- Evaluators with the same name and limit are called alike if both are free,
    whatever they keep of earlier calls, and whether or not they write lines unless there
    is an event that only one of them can record. -/
theorem seen_of_alike (h : e.shell.inFlight = false) (h' : e'.shell.inFlight = false)
    (hlimit : e'.limit = e.limit) (hsource : e'.shell.tracer.source = e.shell.tracer.source)
    (derivation : Value)
    (halike : ∀ event ∈ (e.seen derivation).events,
      e'.shell.tracer.admits event = e.shell.tracer.admits event) :
    e'.seen derivation = e.seen derivation := by
  cases hi : derivation.items? with
  | error f =>
    simp only [seen, evaluate, Shell.call_of_not_iterable h hi, Shell.call_of_not_iterable h' hi]
    rfl
  | ok steps =>
    obtain ⟨outcome, log, hrun⟩ := exists_log_of_runDerivation e.limit steps (e.opening steps)
    obtain ⟨hoc, hafter⟩ := evaluate_of_steps h hi
    obtain ⟨hoc', hafter'⟩ := evaluate_of_steps h' hi
    rw [hrun] at hoc hafter
    have hevents : (e.seen derivation).events = (log.addTo (e.opening steps)).tracer.events :=
      congrArg (fun e : Evaluator => e.shell.tracer.events) hafter
    have halike : AdmitAlike (e.opening steps) (e'.opening steps) _ := hevents ▸ halike
    have hcount : (e'.opening steps).steps = (e.opening steps).steps := rfl
    obtain ⟨t', hrun', log', hlog, rfl⟩ :=
      exists_runDerivation_of_session hcount hsource hrun halike
    obtain rfl := Log.addTo_injective _ hlog
    rw [hlimit, hrun'] at hoc' hafter'
    obtain ⟨hsteps, hwarnings, hevents⟩ := addTo_opening log e steps
    obtain ⟨hsteps', hwarnings', hevents'⟩ := addTo_opening log e' steps
    simp only [seen, hoc, hoc', hafter, hafter', Session.finish, hsteps, hsteps', hwarnings,
      hwarnings', hevents, hevents']

/-- An evaluator with debugging switched. -/
def withDebug (e : Evaluator) (debug : Bool) : Evaluator :=
  { e with shell := e.shell.withDebug debug }

/-- Whether all that a call puts on record can be described, where it has to be. -/
def Describes (e : Evaluator) (derivation : Value) : Prop :=
  ∀ event ∈ (e.seen derivation).events, e.shell.tracer.admits event = true

/-- Without debugging nothing that a call puts on record has to be described. -/
theorem describes_of_off (h : e.shell.tracer.debug = false) (derivation : Value) :
    e.Describes derivation := fun event _ => Tracer.admits_of_off h event

/-- A call that can describe what it has to is the same without debugging. -/
theorem seen_withDebug (e : Evaluator) {derivation : Value} (h : e.shell.inFlight = false)
    (hdescribes : e.Describes derivation) :
    (e.withDebug false).seen derivation = e.seen derivation := by
  have hfree : (e.withDebug false).shell.inFlight = false := h
  refine seen_of_alike h hfree rfl rfl derivation fun event hevent => ?_
  rw [hdescribes event hevent]
  exact Tracer.admits_of_off rfl event

/-- Evaluators that write lines alike as well are called alike in every respect. -/
theorem evaluate_of_alike (h : e.shell.inFlight = false) (h' : e'.shell.inFlight = false)
    (hlimit : e'.limit = e.limit) (hsource : e'.shell.tracer.source = e.shell.tracer.source)
    (hdebug : e'.shell.tracer.debug = e.shell.tracer.debug) (derivation : Value) :
    e'.evaluate derivation = e.evaluate derivation := by
  have hopening : e'.shell.opening = e.shell.opening := by
    rw [Shell.opening, Shell.opening, Tracer.clear, Tracer.clear, hsource, hdebug]
  have hcall : e'.shell.call derivation (strategy e.limit) =
      e.shell.call derivation (strategy e.limit) := by
    cases hi : derivation.items? with
    | error f => rw [Shell.call_of_not_iterable h hi, Shell.call_of_not_iterable h' hi, hopening]
    | ok steps => rw [Shell.call_of_steps h hi, Shell.call_of_steps h' hi, hopening]
  rw [evaluate, evaluate, hlimit, hcall]

/-! ## Sequences of operations -/

/-- An operation on an evaluator. -/
inductive Operation where
  /-- A call with a value given as derivation. -/
  | evaluate (derivation : Value)
  /-- The guard taken, if it is free. -/
  | lock
  /-- The guard given back, if it is held. -/
  | unlock

/-- The evaluator after an operation. -/
def Operation.apply (e : Evaluator) : Operation → Evaluator
  | evaluate derivation => (e.evaluate derivation).after
  | lock => e.lock.after
  | unlock => e.unlock.after

/-- The evaluator after a sequence of operations. -/
def runAll (e : Evaluator) (ops : List Operation) : Evaluator := ops.foldl Operation.apply e

/-- What an operation does to the guard, if anything. -/
def Operation.guard : Operation → Option Bool
  | evaluate _ => none
  | lock => some true
  | unlock => some false

/-- The guard is held iff it was taken since it was last given back. -/
theorem inFlight_runAll (e : Evaluator) (ops : List Operation) :
    (e.runAll ops).shell.inFlight =
      (ops.filterMap Operation.guard).getLast?.getD e.shell.inFlight :=
  Shell.inFlight_foldl Evaluator.shell Operation.apply Operation.guard
    (fun e op => by
      cases op with
      | evaluate derivation => exact e.shell.inFlight_after_call derivation _
      | lock => rfl
      | unlock => exact e.shell.inFlight_unlock) e ops

/-- What is never touched: the limit, the name and whether lines are written. -/
structure Keeps (e e' : Evaluator) : Prop where
  limit : e'.limit = e.limit
  source : e'.shell.tracer.source = e.shell.tracer.source
  debug : e'.shell.tracer.debug = e.shell.tracer.debug

theorem Keeps.refl (e : Evaluator) : Keeps e e := ⟨rfl, rfl, rfl⟩

theorem Keeps.trans {e'' : Evaluator} (h : Keeps e e') (h' : Keeps e' e'') : Keeps e e'' :=
  ⟨h'.limit.trans h.limit, h'.source.trans h.source, h'.debug.trans h.debug⟩

/-- No call touches the limit, the name, or whether lines are written, however it ends. -/
theorem keeps_evaluate (e : Evaluator) (derivation : Value) :
    Keeps e (e.evaluate derivation).after := by
  cases h : e.shell.inFlight with
  | true =>
    rw [evaluate, Shell.call_of_inFlight h]
    exact .refl e
  | false =>
    cases hi : derivation.items? with
    | error f =>
      rw [evaluate, Shell.call_of_not_iterable h hi]
      exact ⟨rfl, rfl, rfl⟩
    | ok steps =>
      obtain ⟨outcome, log, hrun⟩ := exists_log_of_runDerivation e.limit steps (e.opening steps)
      rw [(evaluate_of_steps h hi).2, hrun]
      exact ⟨rfl, rfl, rfl⟩

theorem keeps_apply (e : Evaluator) (op : Operation) : Keeps e (op.apply e) := by
  cases op with
  | evaluate derivation => exact keeps_evaluate e derivation
  | lock => exact ⟨rfl, rfl, rfl⟩
  | unlock =>
    rw [Operation.apply, unlock, Call.lift, Shell.unlock]
    split <;> exact ⟨rfl, rfl, rfl⟩

theorem keeps_runAll (e : Evaluator) (ops : List Operation) : Keeps e (e.runAll ops) := by
  induction ops generalizing e with
  | nil => exact .refl e
  | cons op ops ih => exact (keeps_apply e op).trans (ih (op.apply e))

end Evaluator

/-- A stack evaluator has no memory. Whatever calls were made of it, returning, failing,
    refused or called back into, and whoever took the guard and gave it back: once it
    is free it is called like a new one of the same limit, with the same outcome, count,
    warnings, trace and lines, if the new one writes lines if and only if it does; and with
    the same ones but for the lines in any case, if all events of the call have a text. -/
theorem memoryless (debug debug' limit : Value) (ops : List Evaluator.Operation)
    (derivation : Value)
    (h : ((Evaluator.new debug limit).runAll ops).shell.inFlight = false) :
    ((∀ event ∈ ((Evaluator.new debug' limit).seen derivation).events, event.isShowable = true) →
        ((Evaluator.new debug limit).runAll ops).seen derivation =
          (Evaluator.new debug' limit).seen derivation) ∧
      (debugOn debug = debugOn debug' →
        ((Evaluator.new debug limit).runAll ops).evaluate derivation =
          (Evaluator.new debug' limit).evaluate derivation) := by
  have hkept := (Evaluator.new debug limit).keeps_runAll ops
  have hlimit : _ = (Evaluator.new debug' limit).limit := hkept.limit
  have hsource : _ = (Evaluator.new debug' limit).shell.tracer.source := hkept.source
  refine ⟨fun hshown => ?_, fun hon => ?_⟩
  · refine Evaluator.seen_of_alike rfl h hlimit hsource derivation fun event hevent => ?_
    rw [Tracer.admits_of_showable (hshown event hevent),
      Tracer.admits_of_showable (hshown event hevent)]
  · exact Evaluator.evaluate_of_alike rfl h hlimit hsource (hkept.debug.trans hon) derivation

/-- Of a stack that does not end with a single value, one that runs out of operands
    in a branch, something that is no derivation, a call while the guard is held and
    an operand that calls back, nothing is left. -/
theorem memoryless_of_failed_calls :
    ((Evaluator.new (.bool true) (.int 1)).runAll
        [.evaluate (.list [.literal (.int 1), .literal (.int 2)]),
          .evaluate (.list [.literal (.bool true),
            .sub [.literal (.str "multiply"), .morphism .apply], .literal .null, .morphism .cond]),
          .evaluate (.int 3), .lock, .evaluate (.list [.literal (.int 4)]), .unlock,
          .evaluate (.list [.literal (.reentrant []), .literal (.int 2), .literal (.str "multiply"),
            .morphism .apply])]).evaluate (.list [.literal (.int 5)]) =
      (Evaluator.new (.bool true) (.int 1)).evaluate (.list [.literal (.int 5)]) :=
  (memoryless (.bool true) (.bool true) (.int 1) _ _ (Evaluator.inFlight_runAll _ _)).2 rfl

end Heptad.Stack
