import Heptad.Proofs.Debug
import Heptad.Proofs.Derivation.Ordinals
import Heptad.Proofs.Field.Replay

/-!
# Switching the debugging of a field evaluator

A run of morphisms puts one event a step on record and says nothing else, so that calls
are switched with the evaluator. A derivation that is not accepted is refused before
anything is said about it.

* `Operation.call`: what an operation gives and writes, and what it leaves;
* `call_switched`, `runAll_withDebug`, `new_withDebug`: switching makes no other
  difference, from the start on;
* `logged_foldl`: what a run puts on record, it writes;
* `report`, `lines_call`: what is written when debugging is on;
* `Named`: the name of an evaluator and its debugging are never touched.
-/

namespace Heptad

namespace Field

namespace Evaluator

/-- An evaluator with debugging switched. -/
def withDebug (e : Evaluator) (debug : Bool) : Evaluator :=
  { e with shell := e.shell.withDebug debug }

/-- What an operation gives. -/
def Operation.Result : Operation → Type
  | evaluate _ => Field
  | reset => Unit
  | lock => Bool
  | unlock => Unit

/-- An operation carried out. -/
def Operation.call (e : Evaluator) : (op : Operation) → Call Evaluator op.Result
  | evaluate derivation => e.evaluate derivation
  | reset => ⟨.ok (), [], e.reset⟩
  | lock => e.lock
  | unlock => e.unlock

theorem Operation.after_call (e : Evaluator) (op : Operation) : (op.call e).after = op.apply e := by
  cases op <;> rfl

end Evaluator

/-! ## The switch -/

section

variable (t : Table3) {debug : Bool} {s s' : Session Event}

/-- One transition keeps sessions apart by the switch only. -/
theorem transition_switched (h : Session.Switched debug s s') (state : State) (m : Morphism) :
    (transition t (state, s') m).1 = (transition t (state, s) m).1 ∧
      Session.Switched debug (transition t (state, s) m).2 (transition t (state, s') m).2 := by
  refine ⟨rfl, ?_⟩
  dsimp only [transition]
  rw [h.tick.steps]
  exact h.tick.record _

/-- A run keeps sessions apart by the switch only. -/
theorem foldl_transition_switched (h : Session.Switched debug s s') (state : State)
    (ms : List Morphism) :
    (ms.foldl (transition t) (state, s')).1 = (ms.foldl (transition t) (state, s)).1 ∧
      Session.Switched debug (ms.foldl (transition t) (state, s)).2
        (ms.foldl (transition t) (state, s')).2 := by
  induction ms generalizing state s s' with
  | nil => exact ⟨rfl, h⟩
  | cons m ms ih => exact ih (transition_switched t h state m).2 (state.step t m)

end

namespace Evaluator

variable (e : Evaluator) (debug : Bool)

/-- A derivation is run alike whether lines are written or not. -/
theorem strategy_switched (t : Table3) (state : State) (steps : List Value)
    {s s' : Session Event} (h : Session.Switched debug s s') :
    (strategy t state steps s').1 = (strategy t state steps s).1 ∧
      Session.Switched debug (strategy t state steps s).2 (strategy t state steps s').2 := by
  rw [strategy, strategy]
  cases acceptAll 1 steps with
  | error reason => exact ⟨rfl, h⟩
  | ok ms =>
    obtain ⟨hstate, hsession⟩ :=
      foldl_transition_switched t (((h.note _ _).note _ _).note _ _) state ms
    exact ⟨congrArg Except.ok hstate, hsession.note _ _⟩

/-- A call is switched with its evaluator. -/
theorem evaluate_switched (derivation : Value) :
    Call.Switched (fun e : Evaluator => e.withDebug debug) (e.evaluate derivation)
      ((e.withDebug debug).evaluate derivation) := by
  have h := e.shell.call_switched debug derivation fun steps _ _ =>
    strategy_switched debug e.table e.state steps
      (⟨rfl, rfl, rfl⟩ : Session.Switched debug e.shell.opening (e.shell.withDebug debug).opening)
  have houtcome : ((e.withDebug debug).shell.call derivation
      (strategy (e.withDebug debug).table (e.withDebug debug).state)).outcome =
    (e.shell.call derivation (strategy e.table e.state)).outcome := h.outcome
  rw [evaluate, evaluate, houtcome]
  cases (e.shell.call derivation (strategy e.table e.state)).outcome with
  | error failure => exact ⟨rfl, congrArg (fun shell => { e with shell }) h.after⟩
  | ok state => exact ⟨rfl, congrArg (fun shell => { e with shell, state }) h.after⟩

/-- No operation gives anything else for the switch. -/
theorem call_switched (op : Operation) :
    Call.Switched (fun e : Evaluator => e.withDebug debug) (op.call e)
      (op.call (e.withDebug debug)) := by
  cases op with
  | evaluate derivation => exact e.evaluate_switched debug derivation
  | reset => exact ⟨rfl, rfl⟩
  | lock =>
    rw [Operation.call, Operation.call, lock, lock]
    exact (e.shell.lock_switched debug).lift fun _ => rfl
  | unlock =>
    rw [Operation.call, Operation.call, unlock, unlock]
    exact (e.shell.unlock_switched debug).lift fun _ => rfl

/-- No sequence of operations leaves anything else for the switch. -/
theorem runAll_withDebug (ops : List Operation) :
    (e.withDebug debug).runAll ops = (e.runAll ops).withDebug debug := by
  rw [runAll, runAll]
  refine List.foldl_hom (fun e : Evaluator => e.withDebug debug) fun e op => ?_
  rw [← op.after_call, ← op.after_call]
  exact (e.call_switched debug op).after

/-- Whether an evaluator can be made, and what it begins with, has nothing to do with
    the flag. -/
theorem new_withDebug (flag flag' field history : Value) (choice : TableChoice) :
    new flag' field history choice =
      (new flag field history choice).map fun e => e.withDebug (debugOn flag') := by
  rw [new, new]
  cases choice.table with
  | error f => rfl
  | ok table =>
    cases Field.ofSeed field with
    | error failure => rfl
    | ok field =>
      cases historySeed history with
      | error failure => rfl
      | ok seed => rfl

end Evaluator

/-! ## What is written -/

/-- A run puts an event on record for each morphism, and writes its line. -/
theorem logged_foldl (t : Table3) (state : State) (s : Session Event) (ms : List Morphism) :
    ∃ events, Session.Logged s (ms.foldl (transition t) (state, s)).2 events := by
  induction ms generalizing state s with
  | nil => exact ⟨[], .nil s⟩
  | cons m ms ih =>
    obtain ⟨events, h⟩ := ih (state.step t m) (transition t (state, s) m).2
    exact ⟨_, (Session.Logged.tick_record s _).trans h⟩

namespace Evaluator

/-- The notes at the beginning of a run, on the number of steps and the state. -/
def runNotes (state : State) (count : Nat) : List String :=
  [s!"Evaluating derivation ({count} steps)...",
    s!"Initial Field: {state.field.brief}",
    s!"Initial History: [{Value.commas (state.history.map Morphism.symbol)}]"]

/-- The notes at the beginning of a call: there are some if its steps are accepted. -/
def openingNotes (e : Evaluator) (derivation : Value) : List String :=
  match (e.evaluate derivation).outcome with
  | .ok _ => runNotes e.state (e.acceptedSteps derivation).length
  | .error _ => []

/-- What there is to say about a call: the events it puts on record, in their order,
    between the notes. -/
def report (e : Evaluator) (derivation : Value) : List String :=
  let call := e.evaluate derivation
  e.openingNotes derivation ++ (e.shell.recorded call.after.shell).map describe ++
    closingNotes call.outcome call.after.shell.steps

/-- A session with the notes at the beginning of a run. -/
def opened (s : Session Event) (state : State) (count : Nat) : Session Event :=
  ((s.note s!"Evaluating derivation ({count} steps)...").note
    s!"Initial Field: {state.field.brief}").note
      s!"Initial History: [{Value.commas (state.history.map Morphism.symbol)}]"

theorem tracer_opened (s : Session Event) (state : State) (count : Nat) :
    (opened s state count).tracer = s.tracer := rfl

theorem lines_opened (s : Session Event) (state : State) (count : Nat) :
    (opened s state count).lines =
      s.lines ++ written s.tracer.debug s.tracer.source (runNotes state count) := by
  have hnotes : runNotes state count = [s!"Evaluating derivation ({count} steps)..."] ++
    [s!"Initial Field: {state.field.brief}"] ++
      [s!"Initial History: [{Value.commas (state.history.map Morphism.symbol)}]"] := rfl
  rw [hnotes, written_append, written_append, ← List.append_assoc, ← List.append_assoc]
  rfl

/-- What becomes of a session in which a derivation is run that is accepted. -/
theorem strategy_of_accepted {t : Table3} {steps : List Value} {ms : List Morphism}
    (ha : acceptAll 1 steps = .ok ms) (state : State) (s : Session Event) :
    ∃ events, (strategy t state steps s).2.tracer =
        { s.tracer with events := s.tracer.events ++ events } ∧
      (strategy t state steps s).2.lines = s.lines ++ written s.tracer.debug s.tracer.source
        (runNotes state ms.length ++ events.map describe ++
          closingNotes (strategy t state steps s).1 (strategy t state steps s).2.steps) := by
  obtain ⟨events, h⟩ := logged_foldl t state (opened s state ms.length) ms
  refine ⟨events, ?_, ?_⟩
  · rw [strategy, ha]
    exact h.tracer
  · rw [fst_strategy ha s, strategy, ha]
    refine (h.lines_note _).trans ?_
    rw [lines_opened, tracer_opened, Tracer.descriptions_of_showable fun _ _ => rfl,
      List.append_assoc, ← written_append, ← List.append_assoc]
    rfl

variable {e : Evaluator} {derivation : Value}

/-- What a call writes and keeps is what its run does. -/
theorem evaluate_of_call (e : Evaluator) (derivation : Value) :
    (e.evaluate derivation).lines = (e.shell.call derivation (strategy e.table e.state)).lines ∧
      (e.evaluate derivation).after.shell =
        (e.shell.call derivation (strategy e.table e.state)).after := by
  rw [evaluate]
  split <;> exact ⟨rfl, rfl⟩

/-- There is nothing to say about a call that fails. -/
theorem report_of_error {failure : Failure} {after : Shell Event}
    (h : e.shell.call derivation (strategy e.table e.state) = ⟨.error failure, [], after⟩)
    (hrecorded : e.shell.recorded after = []) :
    (e.evaluate derivation).lines = [] ∧ e.report derivation = [] := by
  obtain ⟨hlines, hshell⟩ := e.evaluate_of_call derivation
  have ho : (e.evaluate derivation).outcome = .error failure :=
    outcome_of_call_error (congrArg Call.outcome h)
  refine ⟨by rw [hlines, h], ?_⟩
  rw [report, openingNotes, ho, hshell, h]
  dsimp only
  rw [hrecorded]
  rfl

/-- About one that returns there is, and it is written. -/
theorem lines_of_accepted {steps : List Value} {ms : List Morphism}
    (hf : e.shell.inFlight = false) (hi : derivation.items? = .ok steps)
    (ha : acceptAll 1 steps = .ok ms) :
    (e.evaluate derivation).lines =
      written e.shell.tracer.debug e.shell.tracer.source (e.report derivation) := by
  obtain ⟨hlines, hshell⟩ := e.evaluate_of_call derivation
  obtain ⟨events, htracer, hwritten⟩ := strategy_of_accepted ha e.state e.shell.opening
  have ho := (evaluate_of_accepted hf hi ha).1
  have hlength : ms.length = (e.acceptedSteps derivation).length := by
    rw [acceptedSteps, ho, hi, (acceptAll_eq_ok_iff.1 ha).length_eq]
  rw [report, openingNotes, Shell.recorded, if_neg (Bool.eq_false_iff.1 hf), ho, hlines, hshell,
    Shell.call_of_steps hf hi, hwritten, hlength, fst_strategy ha]
  dsimp only [Session.finish]
  rw [htracer]
  rfl

/-- A call writes what there is to say about it. -/
theorem lines_evaluate (e : Evaluator) (derivation : Value) :
    (e.evaluate derivation).lines =
      written e.shell.tracer.debug e.shell.tracer.source (e.report derivation) := by
  cases hf : e.shell.inFlight with
  | true =>
    obtain ⟨hlines, hreport⟩ := report_of_error (Shell.call_of_inFlight hf derivation _)
      (if_pos hf)
    rw [hlines, hreport, written_nil]
  | false =>
    have hfree := Bool.eq_false_iff.1 hf
    cases hi : derivation.items? with
    | error f =>
      obtain ⟨hlines, hreport⟩ := report_of_error (Shell.call_of_not_iterable hf hi _)
        (if_neg hfree)
      rw [hlines, hreport, written_nil]
    | ok steps =>
      cases ha : acceptAll 1 steps with
      | error reason =>
        have hcall := Shell.call_of_steps hf hi (strategy e.table e.state)
        rw [strategy, ha] at hcall
        obtain ⟨hlines, hreport⟩ := report_of_error hcall (if_neg hfree)
        rw [hlines, hreport, written_nil]
      | ok ms => exact lines_of_accepted hf hi ha

/-- What there is to say about an operation: only calls write. -/
def Operation.report (e : Evaluator) : Operation → List String
  | evaluate derivation => e.report derivation
  | reset | lock | unlock => []

/-- An operation writes what there is to say about it. -/
theorem lines_call (e : Evaluator) (op : Operation) :
    (op.call e).lines = written e.shell.tracer.debug e.shell.tracer.source (op.report e) := by
  cases op with
  | evaluate derivation => exact e.lines_evaluate derivation
  | reset | lock => exact (written_nil _ _).symm
  | unlock =>
    rw [Operation.call, unlock, Call.lift, Shell.unlock]
    split <;> exact (written_nil _ _).symm

/-! ## The name -/

/-- What lines depend on: the name of an evaluator, and whether debugging is on. -/
structure Named (debug : Bool) (e : Evaluator) : Prop where
  source : e.shell.tracer.source = name
  debug : e.shell.tracer.debug = debug

/-- A new evaluator has its name, and debugging is on if the flag says so. -/
theorem named_new {flag field history : Value} {choice : TableChoice}
    (h : new flag field history choice = .ok e) : Named (debugOn flag) e := by
  rw [new, bind_eq_ok] at h
  obtain ⟨table, -, h⟩ := h
  obtain ⟨f, -, h⟩ := bind_eq_ok.1 h
  obtain ⟨⟨first, second⟩, -, h⟩ := bind_eq_ok.1 h
  obtain rfl := Except.ok.inj h
  exact ⟨rfl, rfl⟩

/-- No call touches the name, or whether there is debugging, however it ends. -/
theorem Named.evaluate {debug : Bool} (h : Named debug e) (derivation : Value) :
    Named debug (e.evaluate derivation).after := by
  obtain ⟨events, htracer⟩ := e.shell.tracer_call derivation fun steps => by
    show ∃ events, (strategy e.table e.state steps e.shell.opening).2.tracer = _
    cases ha : acceptAll 1 steps with
    | error reason =>
      rw [strategy, ha]
      exact ⟨[], rfl⟩
    | ok ms =>
      obtain ⟨events, htracer, -⟩ := strategy_of_accepted ha e.state e.shell.opening
      exact ⟨events, htracer⟩
  rw [← (e.evaluate_of_call derivation).2] at htracer
  refine ⟨?_, ?_⟩
  · rw [htracer]
    exact h.source
  · rw [htracer]
    exact h.debug

/-- No operation touches the name, or whether there is debugging. -/
theorem Named.apply {debug : Bool} (h : Named debug e) (op : Operation) :
    Named debug (op.apply e) := by
  cases op with
  | evaluate derivation => exact h.evaluate derivation
  | reset | lock => exact ⟨h.source, h.debug⟩
  | unlock =>
    rw [Operation.apply, unlock, Call.lift, Shell.unlock]
    split <;> exact ⟨h.source, h.debug⟩

theorem Named.runAll {debug : Bool} (h : Named debug e) (ops : List Operation) :
    Named debug (e.runAll ops) := by
  induction ops generalizing e with
  | nil => exact h
  | cons op ops ih => exact ih (h.apply op)

/-- An evaluator writes under its name what there is to say. -/
theorem Named.lines_call {debug : Bool} (h : Named debug e) (op : Operation) :
    (op.call e).lines = written debug name (op.report e) := by
  rw [Evaluator.lines_call, h.source, h.debug]

end Evaluator

end Field

end Heptad
