import Mathlib.Data.List.Induction
import Heptad.Proofs.Stack.Loop
import Heptad.Proofs.Stack.Memoryless

/-!
# Switching the debugging of a stack evaluator

A run adds a log to its session, and what it adds does not depend on whether it is
written as well, as long as it has a text. So calls are switched with the evaluator; and
what a call writes are the events of its log, one line each. With debugging an event
without a text ends the call.

* `Operation.call`: what an operation gives and writes, and what it leaves;
* `RecordsTexts`: whether all that is on record then has a text;
* `call_runAll_switched`, `runAll_withDebug`: if so, switching makes no other difference;
* `evaluate_of_not_recordsTexts`: else a call fails with debugging;
* `report`, `lines_call`: what is written when debugging is on.
-/

namespace Heptad

/-- Sessions that a log is added to stay apart by the switch only. -/
theorem Session.Switched.addTo {debug : Bool} {s s' : Session Stack.Event}
    (h : Switched debug s s') (log : Stack.Log) : Switched debug (log.addTo s) (log.addTo s') := by
  refine ⟨?_, congrArg (· + log.steps) h.steps, congrArg (· ++ log.warnings) h.warnings⟩
  rw [Stack.Log.addTo, h.tracer, h.steps]
  rfl

namespace Stack

namespace Evaluator

/-- What an operation gives. -/
def Operation.Result : Operation → Type
  | evaluate _ => Value
  | lock => Bool
  | unlock => Unit

/-- An operation carried out. -/
def Operation.call (e : Evaluator) : (op : Operation) → Call Evaluator op.Result
  | evaluate derivation => e.evaluate derivation
  | lock => e.lock
  | unlock => e.unlock

theorem Operation.after_call (e : Evaluator) (op : Operation) : (op.call e).after = op.apply e := by
  cases op <;> rfl

variable (e : Evaluator) (debug : Bool)

/-! ## The switch -/

/-- Without debugging, a run ends as with it if all that it puts on record has a text. -/
theorem strategy_switched {limit : Value} {steps : List Value} {s s' : Session Event}
    (h : Session.Switched debug s s') (hoff : s.tracer.debug = false)
    (hshown : ∀ event ∈ (strategy limit steps s).2.tracer.events, event.isShowable = true) :
    (strategy limit steps s').1 = (strategy limit steps s).1 ∧
      Session.Switched debug (strategy limit steps s).2 (strategy limit steps s').2 := by
  have hnote := h.note s!"Evaluating derivation ({steps.length} steps)..."
    s!"Evaluating derivation ({steps.length} steps)..."
  have hsource := congrArg Tracer.source hnote.tracer
  rw [strategy] at hshown
  rw [strategy, strategy]
  cases hrun : runDerivation limit steps
      (s.note s!"Evaluating derivation ({steps.length} steps)...") with
  | mk outcome t =>
    rw [hrun] at hshown
    have halike : AdmitAlike (s.note s!"Evaluating derivation ({steps.length} steps)...")
        (s'.note s!"Evaluating derivation ({steps.length} steps)...") t.tracer.events := by
      have hshown' : ∀ event ∈ t.tracer.events, event.isShowable = true := by
        cases outcome <;> exact hshown
      exact fun event he => (Tracer.admits_of_showable (hshown' event he)).trans
        (Tracer.admits_of_off hoff event).symm
    obtain ⟨t', hrun', log, rfl, rfl⟩ :=
      exists_runDerivation_of_session hnote.steps hsource hrun halike
    rw [hrun']
    cases outcome with
    | error failure => exact ⟨rfl, hnote.addTo log⟩
    | ok v => exact ⟨rfl, (hnote.addTo log).note _ _⟩

variable {e}

/-- Without debugging, a call ends as with it if all that it puts on record has a text. -/
theorem evaluate_switched (hoff : e.shell.tracer.debug = false) {derivation : Value}
    (hshown : ∀ event ∈ (e.evaluate derivation).after.shell.tracer.events,
      event.isShowable = true) :
    Call.Switched (fun e : Evaluator => e.withDebug debug) (e.evaluate derivation)
      ((e.withDebug debug).evaluate derivation) := by
  have hcall : (e.evaluate derivation).after.shell =
    (e.shell.call derivation (strategy e.limit)).after := rfl
  rw [evaluate, evaluate]
  refine (e.shell.call_switched debug derivation fun steps hf hi => ?_).lift fun _ => rfl
  rw [hcall, Shell.call_of_steps hf hi] at hshown
  exact strategy_switched debug ⟨rfl, rfl, rfl⟩ hoff hshown

/-- An operation gives nothing else for the switch if all that is on record has a text. -/
theorem call_switched (hoff : e.shell.tracer.debug = false) (op : Operation)
    (hshown : ∀ event ∈ (op.apply e).shell.tracer.events, event.isShowable = true) :
    Call.Switched (fun e : Evaluator => e.withDebug debug) (op.call e)
      (op.call (e.withDebug debug)) := by
  cases op with
  | evaluate derivation => exact evaluate_switched debug hoff hshown
  | lock =>
    rw [Operation.call, Operation.call, lock, lock]
    exact (e.shell.lock_switched debug).lift fun _ => rfl
  | unlock =>
    rw [Operation.call, Operation.call, unlock, unlock]
    exact (e.shell.unlock_switched debug).lift fun _ => rfl

/-- An operation begins a new record, or it keeps the one there is. -/
theorem Operation.fresh_or_kept (e : Evaluator) (op : Operation) :
    (e.shell.inFlight = false ∧ ∃ derivation, op = .evaluate derivation) ∨
      (op.apply e).shell.tracer.events = e.shell.tracer.events := by
  cases op with
  | evaluate derivation =>
    cases hf : e.shell.inFlight with
    | false => exact .inl ⟨rfl, derivation, rfl⟩
    | true =>
      rw [apply, Evaluator.evaluate, Shell.call_of_inFlight hf]
      exact .inr rfl
  | lock => exact .inr rfl
  | unlock =>
    rw [apply, Evaluator.unlock, Shell.unlock]
    split <;> exact .inr rfl

theorem runAll_concat (e : Evaluator) (ops : List Operation) (op : Operation) :
    e.runAll (ops ++ [op]) = op.apply (e.runAll ops) := by
  rw [runAll, List.foldl_append, List.foldl_cons, List.foldl_nil, runAll]

variable (e)

/-- Whether all that is on record after some operations has a text, when they are carried
    out without debugging. -/
def RecordsTexts (ops : List Operation) : Prop :=
  ∀ event ∈ ((e.withDebug false).runAll ops).shell.tracer.events, event.isShowable = true

variable {e}

/-- An operation after others that leave nothing else for the switch, or whose record it
    does not keep. -/
theorem switched_concat {ops : List Operation} {op : Operation} (h : e.RecordsTexts (ops ++ [op]))
    (hops : e.RecordsTexts ops →
      (e.withDebug debug).runAll ops = ((e.withDebug false).runAll ops).withDebug debug) :
    Call.Switched (fun e : Evaluator => e.withDebug debug)
      (op.call ((e.withDebug false).runAll ops)) (op.call ((e.withDebug debug).runAll ops)) := by
  have hoff := (e.withDebug false).keeps_runAll ops
  rw [RecordsTexts, runAll_concat] at h
  rcases op.fresh_or_kept ((e.withDebug false).runAll ops) with ⟨hfree, derivation, rfl⟩ | hkept
  · have hon := (e.withDebug debug).keeps_runAll ops
    have hfree' : ((e.withDebug debug).runAll ops).shell.inFlight = false := by
      rw [inFlight_runAll] at hfree ⊢
      exact hfree
    have hswitched : (((e.withDebug false).runAll ops).withDebug debug).shell.inFlight = false :=
      hfree
    have hfresh : ((e.withDebug debug).runAll ops).evaluate derivation =
        (((e.withDebug false).runAll ops).withDebug debug).evaluate derivation :=
      evaluate_of_alike hswitched hfree' (hon.limit.trans hoff.limit.symm)
        (hon.source.trans hoff.source.symm) hon.debug derivation
    rw [Operation.call, Operation.call, hfresh]
    exact evaluate_switched debug hoff.debug h
  · rw [hops (by rwa [hkept] at h)]
    exact call_switched debug hoff.debug op h

/-- A sequence of operations leaves nothing else for the switch if all that is then on
    record has a text. -/
theorem runAll_withDebug {ops : List Operation} (h : e.RecordsTexts ops) :
    (e.withDebug debug).runAll ops = ((e.withDebug false).runAll ops).withDebug debug := by
  induction ops using List.reverseRecOn with
  | nil => rfl
  | append_singleton ops op ih =>
    rw [runAll_concat, runAll_concat, ← op.after_call, ← op.after_call]
    exact (switched_concat debug h ih).after

/-- An operation after others gives nothing else for the switch if all that is then on
    record has a text. -/
theorem call_runAll_switched {ops : List Operation} {op : Operation}
    (h : e.RecordsTexts (ops ++ [op])) :
    Call.Switched (fun e : Evaluator => e.withDebug debug)
      (op.call ((e.withDebug false).runAll ops)) (op.call ((e.withDebug debug).runAll ops)) :=
  switched_concat debug h (runAll_withDebug debug)

/-! ## What cannot be described -/

/-- Nothing that cannot be described is put on record by a run, unless it ends for it. -/
theorem described_run (limit : Value) {c : Config} (h : Described c.session) :
    Described (run limit c).2 ∨ ∃ t e, Described t ∧
      run limit c = (.error (.fault .tooManyDigits), t.record e) := by
  induction c using run.induct limit with
  | case1 c outcome session hn =>
    rw [run_of_halted hn]
    refine (h.transition (Config.next_eq_iff.1 hn)).imp id ?_
    rintro ⟨t, e, ht, hhalted⟩
    cases hhalted
    exact ⟨t, e, ht, rfl⟩
  | case2 c d hn ih =>
    rw [run_of_running hn]
    exact ih (h.next hn)

/-- Nothing that cannot be described is put on record by a call but possibly the latest
    event, which the call fails for. -/
theorem describes_evaluate (hf : e.shell.inFlight = false) (derivation : Value) :
    e.Describes derivation ∨
      (e.evaluate derivation).outcome = .error (.fault .tooManyDigits) ∧
        ∀ event ∈ (e.seen derivation).events.dropLast, e.shell.tracer.admits event = true := by
  cases hi : derivation.items? with
  | error f =>
    rw [Describes, seen, evaluate, Shell.call_of_not_iterable hf hi]
    exact .inl (List.forall_mem_nil _)
  | ok steps =>
    obtain ⟨houtcome, hafter⟩ := evaluate_of_steps hf hi
    obtain ⟨outcome, log, hrun⟩ := exists_log_of_runDerivation e.limit steps (e.opening steps)
    have hopening : Described (e.opening steps) := List.forall_mem_nil _
    rw [hrun] at houtcome hafter
    rw [Describes, seen, houtcome, hafter]
    cases henter : enter e.limit 0 with
    | error failure =>
      rw [runDerivation, henter] at hrun
      obtain ⟨-, hlog⟩ := Prod.mk.inj hrun
      exact .inl (hlog ▸ hopening)
    | ok _ =>
      rw [runDerivation, henter] at hrun
      have hdescribed := described_run e.limit (c := ⟨.start steps, [], e.opening steps⟩) hopening
      rw [show run e.limit ⟨.start steps, [], e.opening steps⟩ = _ from hrun] at hdescribed
      refine hdescribed.imp id ?_
      rintro ⟨t, event, ht, heq⟩
      obtain ⟨rfl, hlog⟩ := Prod.mk.inj heq
      have hevents : (log.addTo (e.opening steps)).tracer.events = t.tracer.events ++ [event] :=
        congrArg (fun s => s.tracer.events) hlog
      have hdebug : e.shell.tracer.debug = t.tracer.debug := congrArg (fun s => s.tracer.debug) hlog
      refine ⟨rfl, fun event' he => ?_⟩
      dsimp only [Session.finish] at he
      rw [hevents, List.dropLast_concat] at he
      rw [Tracer.admits, hdebug]
      exact ht event' he

/-- With debugging, a call fails if without it something is put on record that has no
    text. All that it has put on record before has one. -/
theorem evaluate_of_undescribed (hf : e.shell.inFlight = false)
    (hon : e.shell.tracer.debug = true) {derivation : Value} {event : Event}
    (he : event ∈ ((e.withDebug false).seen derivation).events)
    (hshown : event.isShowable = false) :
    (e.evaluate derivation).outcome = .error (.fault .tooManyDigits) ∧
      ∀ event ∈ (e.seen derivation).events.dropLast, event.isShowable = true := by
  have hadmits (event : Event) (ha : e.shell.tracer.admits event = true) :
      event.isShowable = true := by
    rw [Tracer.admits, hon] at ha
    exact ha
  rcases describes_evaluate hf derivation with hdescribes | ⟨houtcome, hbefore⟩
  · -- then the call would put the same on record
    have hevents := congrArg Seen.events (e.seen_withDebug hf hdescribes)
    have htext := hadmits event (hdescribes event (hevents ▸ he))
    cases hshown.symm.trans htext
  · exact ⟨houtcome, fun event he => hadmits event (hbefore event he)⟩

/-- After any operations, a call with debugging fails if without debugging there is
    something on record then that has no text. -/
theorem evaluate_of_not_recordsTexts {ops : List Operation} {derivation : Value}
    (hf : (e.runAll ops).shell.inFlight = false) (hon : e.shell.tracer.debug = true)
    (h : ¬ e.RecordsTexts (ops ++ [.evaluate derivation])) :
    ((e.runAll ops).evaluate derivation).outcome = .error (.fault .tooManyDigits) ∧
      ∀ event ∈ ((e.runAll ops).seen derivation).events.dropLast, event.isShowable = true := by
  have hkept := e.keeps_runAll ops
  have hoff := (e.withDebug false).keeps_runAll ops
  have hfree : ((e.runAll ops).withDebug false).shell.inFlight = false := hf
  have hfree' : ((e.withDebug false).runAll ops).shell.inFlight = false := by
    rw [inFlight_runAll] at hf ⊢
    exact hf
  have hcall : ((e.withDebug false).runAll ops).evaluate derivation =
      ((e.runAll ops).withDebug false).evaluate derivation :=
    evaluate_of_alike hfree hfree' (hoff.limit.trans hkept.limit.symm)
      (hoff.source.trans hkept.source.symm) hoff.debug derivation
  obtain ⟨event, he, hshown⟩ : ∃ event ∈ (((e.runAll ops).withDebug false).seen derivation).events,
      event.isShowable = false := by
    rw [seen, ← hcall]
    rw [RecordsTexts, runAll_concat, not_forall] at h
    obtain ⟨event, hevent⟩ := h
    obtain ⟨he, hshown⟩ := Classical.not_imp.1 hevent
    exact ⟨event, he, Bool.eq_false_iff.2 hshown⟩
  exact evaluate_of_undescribed hf (hkept.debug.trans hon) he hshown

variable (e)

/-! ## What is written -/

/-- The note at the beginning of a run. -/
def openingNote (steps : List Value) : String :=
  s!"Evaluating derivation ({steps.length} steps)..."

/-- The notes at the beginning of a call: there is one if it gets as far as its steps. -/
def openingNotes (e : Evaluator) (derivation : Value) : List String :=
  match e.shell.inFlight, derivation.items? with
  | false, .ok steps => [openingNote steps]
  | _, _ => []

/-- What there is to say about a call: the events it puts on record, in their order and as
    far as they can be described, between the notes. -/
def report (e : Evaluator) (derivation : Value) : List String :=
  let call := e.evaluate derivation
  e.openingNotes derivation ++ Tracer.descriptions (e.shell.recorded call.after.shell) ++
    closingNotes call.outcome call.after.shell.steps

/-- The lines of a session that a log was added to. -/
theorem lines_addTo (log : Log) (steps : List Value) :
    (log.addTo (e.opening steps)).lines =
      written e.shell.tracer.debug e.shell.tracer.source
        ([openingNote steps] ++ Tracer.descriptions log.events) := by
  have hopening : (e.opening steps).lines =
    written e.shell.tracer.debug e.shell.tracer.source [openingNote steps] := List.nil_append _
  rw [Log.addTo, hopening, written_append]
  have hshift : log.events.map (Event.shift (e.opening steps).steps) = log.events := by
    show log.events.map (Event.shift 0) = log.events
    rw [List.map_congr_left fun e _ => e.shift_zero, List.map_id']
  rw [hshift, Tracer.flatMap_eventLines]
  rfl

/-- A call writes what there is to say about it. -/
theorem lines_evaluate (derivation : Value) :
    (e.evaluate derivation).lines =
      written e.shell.tracer.debug e.shell.tracer.source (e.report derivation) := by
  rw [report, openingNotes, Shell.recorded]
  cases hf : e.shell.inFlight with
  | true =>
    rw [evaluate, Shell.call_of_inFlight hf]
    exact (written_nil _ _).symm
  | false =>
    cases hi : derivation.items? with
    | error f =>
      rw [evaluate, Shell.call_of_not_iterable hf hi]
      exact (written_nil _ _).symm
    | ok steps =>
      obtain ⟨outcome, log, hrun⟩ := exists_log_of_runDerivation e.limit steps (e.opening steps)
      obtain ⟨houtcome, hafter⟩ := evaluate_of_steps hf hi
      obtain ⟨-, -, hevents⟩ := addTo_opening log e steps
      have hcall : (e.evaluate derivation).lines =
          (strategy e.limit steps e.shell.opening).2.lines := by
        rw [evaluate, Shell.call_of_steps hf hi]
        rfl
      have hopening : e.shell.opening.note s!"Evaluating derivation ({steps.length} steps)..." =
        e.opening steps := rfl
      rw [hcall, strategy, hopening, houtcome, hafter, hrun]
      dsimp only [Session.finish]
      rw [if_neg Bool.false_ne_true, hevents, written_append, ← e.lines_addTo]
      cases outcome with
      | error failure => exact (List.append_nil _).symm.trans (congrArg _ (written_nil _ _).symm)
      | ok v => rfl

/-- What there is to say about an operation: only calls write. -/
def Operation.report (e : Evaluator) : Operation → List String
  | evaluate derivation => e.report derivation
  | lock | unlock => []

/-- An operation writes what there is to say about it. -/
theorem lines_call (op : Operation) :
    (op.call e).lines = written e.shell.tracer.debug e.shell.tracer.source (op.report e) := by
  cases op with
  | evaluate derivation => exact e.lines_evaluate derivation
  | lock => exact (written_nil _ _).symm
  | unlock =>
    rw [Operation.call, unlock, Call.lift, Shell.unlock]
    split <;> exact (written_nil _ _).symm

/-- An operation on an evaluator that was new once writes under its name, and iff the
    evaluator was made to write. -/
theorem lines_call_runAll (debug limit : Value) (ops : List Operation) (op : Operation) :
    (op.call ((new debug limit).runAll ops)).lines =
      written (debugOn debug) name (op.report ((new debug limit).runAll ops)) := by
  obtain ⟨-, hsource, hdebug⟩ := (new debug limit).keeps_runAll ops
  rw [lines_call, hsource, hdebug]
  rfl

end Evaluator

end Stack

end Heptad
