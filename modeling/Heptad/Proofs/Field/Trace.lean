import Heptad.Proofs.Field.Acceptance
import Heptad.Proofs.Field.ClosedForm

/-!
# The trace of a call

An accepted call puts one event on record for each of its morphisms. The events tell
the whole run: each one shows the window that the morphism came in through, what the
table holds there, and the field afterwards, which later steps do not change any more.

* `State.trace`, `record_foldl`: what a run puts on record;
* `Replays`: an event in its place, told from the word that is read, the table and the
  field before;
* `State.replays_trace`: each event of a run is one that does;
* `Evaluator.trace_replays`: hence the trace of a call, from which its result can be
  read off.
-/

namespace Heptad

namespace Field

/-! ## Runs -/

/-- The event of an incoming morphism. -/
def State.event (t : Table3) (s : State) (number : Nat) (m : Morphism) : Event :=
  ⟨number, m, s.window m, t.cell (s.window m), (s.step t m).field⟩

/-- The events of several morphisms after a number of steps. -/
def State.trace (t : Table3) (s : State) (count : Nat) : List Morphism → List Event
  | [] => []
  | m :: ms => s.event t (count + 1) m :: (s.step t m).trace t (count + 1) ms

variable {t : Table3} {s : State} {ms : List Morphism} {m : Morphism} {i count : Nat}

/-- What a run puts on record. It does not warn. -/
theorem record_foldl (t : Table3) (s : State) (session : Session Event) (ms : List Morphism) :
    (ms.foldl (transition t) (s, session)).2.tracer.events =
        session.tracer.events ++ s.trace t session.steps ms ∧
      (ms.foldl (transition t) (s, session)).2.warnings = session.warnings := by
  induction ms generalizing s session with
  | nil => exact ⟨(List.append_nil _).symm, rfl⟩
  | cons m ms ih =>
    obtain ⟨hevents, hwarnings⟩ := ih (s.step t m) (transition t (s, session) m).2
    refine ⟨hevents.trans ?_, hwarnings⟩
    exact List.append_assoc session.tracer.events [s.event t (session.steps + 1) m] _

namespace State

theorem steps_trace (t : Table3) (s : State) (count : Nat) (ms : List Morphism) :
    (s.trace t count ms).map Event.step = List.range' (count + 1) ms.length := by
  induction ms generalizing s count with
  | nil => rfl
  | cons m ms ih => exact congrArg (List.cons (count + 1)) (ih (s.step t m) (count + 1))

/-- The event of a morphism is that of the state the ones before it lead to. -/
theorem getElem?_trace (t : Table3) (s : State) (count : Nat) (hm : ms[i]? = some m) :
    (s.trace t count ms)[i]? = some ((s.run t (ms.take i)).event t (count + i + 1) m) := by
  induction ms generalizing s count i with
  | nil => cases hm
  | cons n ms ih =>
    cases i with
    | zero =>
      cases hm
      rfl
    | succ i =>
      have := ih (s.step t n) (count + 1) hm
      rw [Nat.add_right_comm count 1 i] at this
      exact this

/-- The window a morphism comes in through shows the three of the word that end in it. -/
theorem drop_word (t : Table3) (s : State) (hm : ms[i]? = some m) :
    (s.word ms).drop i =
      Address.toList ((s.run t (ms.take i)).window m) ++ ms.drop (i + 1) := by
  induction ms generalizing s i with
  | nil => cases hm
  | cons n ms ih =>
    cases i with
    | zero =>
      cases hm
      rfl
    | succ i => exact ih (s.step t n) hm

theorem toList_window (t : Table3) (s : State) (hm : ms[i]? = some m) :
    Address.toList ((s.run t (ms.take i)).window m) = ((s.word ms).drop i).take 3 := by
  rw [drop_word t s hm]
  rfl

/-- A window of a run addresses the cell that the window of its word does. -/
theorem cell_window (t : Table3) (s : State) (hm : ms[i]? = some m) :
    t.cell ((s.run t (ms.take i)).window m) = cellAt t (s.word ms) i := by
  rw [cellAt, drop_word t s hm]
  rfl

/-- One more morphism of a run. -/
theorem run_take_succ (t : Table3) (s : State) (hm : ms[i]? = some m) :
    s.run t (ms.take (i + 1)) = (s.run t (ms.take i)).step t m := by
  rw [List.take_add_one, hm, run_append]
  rfl

end State

/-! ## Events -/

/-- The field after a morphism, told from the one before it and what the table holds in
    its place. -/
def replayed (before : Field) (m : Morphism) : Option Morphism → Field
  | some r => oneHot r
  | none => before.bump m

/-- An event is that of the morphism in a place of a word that is read, on a field. -/
structure Replays (t : Table3) (word : List Morphism) (before : Field) (i : Nat) (m : Morphism)
    (e : Event) : Prop where
  number : e.step = i + 1
  incoming : e.incoming = m
  /-- The cell it shows is the window that ends in the morphism. -/
  window : Address.toList e.window = (word.drop i).take 3
  result : e.result = cellAt t word i
  field : e.field = replayed before m (cellAt t word i)

/-- What is put on record of it, with the glyphs of the morphism and its window. It is a
    collapse to what the table holds there, or else an accumulation. -/
def replayedRecord (t : Table3) (word : List Morphism) (before : Field) (i : Nat) (m : Morphism) :
    Record :=
  let cell : String × Value := ("cell", .texts (((word.drop i).take 3).map Morphism.symbol))
  let field : String × Value := ("field", (replayed before m (cellAt t word i)).toValue)
  match cellAt t word i with
  | some r => ⟨.int (i + 1 : Nat), "collapse", m.symbol, [cell, ("result", .str r.symbol), field]⟩
  | none => ⟨.int (i + 1 : Nat), "accumulate", m.symbol, [cell, field]⟩

namespace Replays

variable {word : List Morphism} {before : Field} {e e' : Event}

theorem toRecord (h : Replays t word before i m e) :
    e.toRecord = replayedRecord t word before i m := by
  cases hr : cellAt t word i <;>
    simp [Event.toRecord, replayedRecord, Event.cellFact, h.window, h.result, h.field, h.number,
      h.incoming, hr]

/-- The windows of two events in a row overlap in two places. -/
theorem overlap {before' : Field} {m' : Morphism} (h : Replays t word before i m e)
    (h' : Replays t word before' (i + 1) m' e') :
    (Address.toList e.window).drop 1 = (Address.toList e'.window).take 2 := by
  have hdrop : ((word.drop i).take 3).drop 1 = ((word.drop i).drop 1).take 2 := List.drop_take
  have htake : ((word.drop (i + 1)).take 3).take 2 = (word.drop (i + 1)).take 2 := List.take_take
  rw [h.window, h'.window, hdrop, htake, List.drop_drop]

end Replays

/-- Each event of a run replays its morphism on the field that the ones before lead to. -/
theorem State.replays_trace (t : Table3) (s : State) (hm : ms[i]? = some m) :
    ∃ e, (s.trace t 0 ms)[i]? = some e ∧
      Replays t (s.word ms) (s.run t (ms.take i)).field i m e ∧
      e.field = (s.run t (ms.take (i + 1))).field := by
  refine ⟨_, getElem?_trace t s 0 hm, ⟨?_, rfl, toList_window t s hm, cell_window t s hm, ?_⟩, ?_⟩
  · exact congrArg (· + 1) (Nat.zero_add i)
  · show (State.fieldAfter t _ m) = _
    rw [fieldAfter, cell_window t s hm]
    cases cellAt t (s.word ms) i <;> rfl
  · rw [run_take_succ t s hm]
    rfl

/-- The field a run begins with and those of its events are the fields it leads through. -/
theorem State.fields_trace (t : Table3) (s : State) (hi : i ≤ ms.length) :
    (s.field :: (s.trace t 0 ms).map Event.field)[i]? = some (s.run t (ms.take i)).field := by
  cases i with
  | zero => rfl
  | succ i =>
    obtain ⟨e, he, -, hfield⟩ := replays_trace t s (List.getElem?_eq_getElem hi)
    rw [List.getElem?_cons_succ, List.getElem?_map, he, ← hfield]
    rfl

/-! ## Calls -/

namespace Evaluator

variable {e : Evaluator} {derivation : Value} {steps : List Value}

/-- A call that is accepted leaves the trace of its run, and no warnings. -/
theorem trace_of_accepted (hf : e.shell.inFlight = false) (hi : derivation.items? = .ok steps)
    (ha : acceptAll 1 steps = .ok ms) :
    (e.evaluate derivation).after.shell.tracer.events = e.state.trace e.table 0 ms ∧
      (e.evaluate derivation).after.shell.warnings = [] := by
  rw [(e.evaluate_of_call derivation).2, Shell.call_of_steps hf hi, strategy, ha]
  exact record_foldl e.table e.state (opened e.shell.opening e.state ms.length) ms

/-- The trace of a call that is made while the guard is free and is accepted replays it.
    There is one event for each morphism, in order, and no warning. It shows the morphism
    and the window of the word that ends in it, so that windows in a row overlap in two
    places, and tells what the table holds there. The field of the first event is made of
    the one the call begins with, and that of any other one of the field of the event
    before: it has collapsed to what the table holds, or has one added for the morphism. It
    is the field after so many steps, whatever comes behind, and the field of the last event
    is what is returned. -/
theorem trace_replays (hf : e.shell.inFlight = false) (hi : derivation.items? = .ok steps)
    (ha : acceptAll 1 steps = .ok ms) :
    let call := e.evaluate derivation
    let events := call.after.shell.tracer.events
    let fields := e.state.field :: events.map Event.field
    call.after.shell.warnings = [] ∧
    events.length = ms.length ∧
    events.map Event.step = List.range' 1 ms.length ∧
    (∀ i m, ms[i]? = some m → ∃ event before, events[i]? = some event ∧ fields[i]? = some before ∧
      Replays e.table (e.state.word ms) before i m event ∧
      event.toRecord = replayedRecord e.table (e.state.word ms) before i m ∧
      event.field = (e.state.run e.table (ms.take (i + 1))).field) ∧
    (∀ i event event', events[i]? = some event → events[i + 1]? = some event' →
      (Address.toList event.window).drop 1 = (Address.toList event'.window).take 2) ∧
    ∃ last, fields.getLast? = some last ∧ call.outcome = .ok last := by
  obtain ⟨hevents, hwarnings⟩ := trace_of_accepted hf hi ha
  have hsteps := e.state.steps_trace e.table 0 ms
  have hlength : (e.state.trace e.table 0 ms).length = ms.length := by
    rw [← List.length_map, hsteps, List.length_range']
  dsimp only
  rw [hevents]
  refine ⟨hwarnings, hlength, hsteps, fun i m hm => ?_, fun i event event' h h' => ?_,
    (e.state.run e.table ms).field, ?_, (evaluate_of_accepted hf hi ha).1⟩
  · obtain ⟨event, hevent, hreplays, hfield⟩ := e.state.replays_trace e.table hm
    have hlt := (List.getElem?_eq_some_iff.1 hm).1
    exact ⟨event, _, hevent, e.state.fields_trace e.table hlt.le, hreplays, hreplays.toRecord,
      hfield⟩
  · have hlt := (List.getElem?_eq_some_iff.1 h').1
    rw [hlength] at hlt
    obtain ⟨_, hevent, hreplays, -⟩ :=
      e.state.replays_trace e.table (List.getElem?_eq_getElem (Nat.lt_of_succ_lt hlt))
    obtain ⟨_, hevent', hreplays', -⟩ :=
      e.state.replays_trace e.table (List.getElem?_eq_getElem hlt)
    obtain rfl := Option.some.inj (h.symm.trans hevent)
    obtain rfl := Option.some.inj (h'.symm.trans hevent')
    exact hreplays.overlap hreplays'
  · rw [List.getLast?_eq_getElem?, List.length_cons, List.length_map, hlength, Nat.add_sub_cancel,
      e.state.fields_trace e.table ms.length.le_refl, List.take_length]

/-- Twice the same morphism is only counted the second time. -/
theorem trace_replays_of_lambda :
    ∃ (event : Event) (before : Field),
      ((standard .null).evaluate
        (.list [.int 1, .int 2, .int 2])).after.shell.tracer.events[2]? = some event ∧
      event.toRecord = ⟨.int 3, "accumulate", Morphism.lambda.symbol,
        [("cell", .texts ["@", "λ", "λ"]), ("field", (before.bump .lambda).toValue)]⟩ := by
  have hfree : (standard .null).shell.inFlight = false := rfl
  have hitems : (Value.list [.int 1, .int 2, .int 2]).items? = .ok _ := rfl
  have haccept : acceptAll 1 [.int 1, .int 2, .int 2] = .ok [.apply, .lambda, .lambda] := rfl
  obtain ⟨-, -, -, hreplays, -⟩ := trace_replays hfree hitems haccept
  obtain ⟨event, before, hevent, -, -, hrecord, -⟩ := hreplays 2 .lambda rfl
  have hnone : cellAt .standard3 (State.initial.word [.apply, .lambda, .lambda]) 2 = none := by
    decide +kernel
  refine ⟨event, before, hevent, hrecord.trans ?_⟩
  show replayedRecord .standard3 (State.initial.word [.apply, .lambda, .lambda]) before 2
    .lambda = _
  rw [replayedRecord, hnone]
  rfl

end Evaluator

end Field

end Heptad
