import Heptad.Proofs.Session

/-!
# Switching debugging

Whether lines are written is a flag of a tracer. Nothing else looks at it, so that an
evaluator with the flag switched is called alike, and left in the same state but for
the flag.

* `written`: the lines for several messages, `Tracer.descriptions` those of events;
* `Tracer.withDebug`, `Shell.withDebug`: debugging switched, and nothing else;
* `Call.Switched`: calls that end alike and leave states that differ by the switch, which
  is so if it is so for their parts (`Switched.lift`, `Switched.andThen`);
* `Session.Switched`: what differs during such calls;
* `Session.Logged`: what was put on record since a session, a line for each event that
  has one;
* `Shell.call_switched`: calls of an evaluator are switched if their strategy is;
* `Shell.recorded`, `closingNotes`: the events of a call, and what is said at its end.
-/

namespace Heptad

/-! ## Lines -/

/-- The line of a message, which begins with the name of what writes it. -/
def line (source message : String) : String := s!"[{source}] {message}\n"

/-- What is written for several messages: a line for each when debugging is on, else
    nothing. -/
def written (debug : Bool) (source : String) (messages : List String) : List String :=
  if debug then messages.map (line source) else []

theorem written_nil (debug : Bool) (source : String) : written debug source [] = [] := by
  cases debug <;> rfl

/-- Without debugging nothing is written. -/
theorem written_of_off {debug : Bool} (h : debug = false) (source : String)
    (messages : List String) : written debug source messages = [] := by
  rw [h]
  rfl

theorem written_append (debug : Bool) (source : String) (ms ns : List String) :
    written debug source (ms ++ ns) = written debug source ms ++ written debug source ns := by
  cases debug with
  | false => rfl
  | true => exact List.map_append

namespace Tracer

variable {ε : Type}

/-- The descriptions of several transitions, as far as they can be described. -/
def descriptions [Recorded ε] (events : List ε) : List String :=
  (events.filter Recorded.isShowable).map describe

section

variable [Recorded ε]

theorem descriptions_append (es fs : List ε) :
    descriptions (es ++ fs) = descriptions es ++ descriptions fs := by
  rw [descriptions, List.filter_append, List.map_append, descriptions, descriptions]

/-- Events that all have a text are each described. -/
theorem descriptions_of_showable {events : List ε}
    (h : ∀ e ∈ events, Recorded.isShowable e = true) :
    descriptions events = events.map describe := by
  rw [descriptions, List.filter_eq_self.2 h]

theorem eventLines_eq_written (t : Tracer ε) (e : ε) :
    t.eventLines e = written t.debug t.source (descriptions [e]) := by
  rw [eventLines, descriptions]
  cases h : Recorded.isShowable e with
  | true =>
    rw [List.filter_cons_of_pos h]
    rfl
  | false =>
    rw [List.filter_cons_of_neg (Bool.eq_false_iff.1 h)]
    exact (written_nil _ _).symm

theorem flatMap_eventLines (t : Tracer ε) (events : List ε) :
    events.flatMap t.eventLines = written t.debug t.source (descriptions events) := by
  induction events with
  | nil => exact (written_nil _ _).symm
  | cons e events ih =>
    rw [List.flatMap_cons, ih, eventLines_eq_written, ← written_append, ← descriptions_append]
    rfl

end

/-- A tracer with debugging switched. -/
def withDebug (t : Tracer ε) (debug : Bool) : Tracer ε := { t with debug }

end Tracer

/-- An evaluator with debugging switched. -/
def Shell.withDebug {ε : Type} (s : Shell ε) (debug : Bool) : Shell ε :=
  { s with tracer := s.tracer.withDebug debug }

/-! ## Calls -/

/-- Calls that end alike and leave states of which the second is the first, switched. -/
structure Call.Switched {σ α : Type} (switch : σ → σ) (c c' : Call σ α) : Prop where
  outcome : c'.outcome = c.outcome
  after : c'.after = switch c.after

namespace Call

variable {σ τ α β : Type} {switch : σ → σ}

/-- What a call writes that is followed by another one. -/
theorem lines_andThen_of_ok {c : Call σ α} {a : α} (h : c.outcome = .ok a)
    (next : α → σ → Call σ β) :
    (c.andThen next).lines = c.lines ++ (next a c.after).lines := by
  rw [andThen, h]

/-- Calls on a part of a state are switched with this part. -/
theorem Switched.lift {c c' : Call σ α} (h : Switched switch c c') {put put' : σ → τ}
    {switch' : τ → τ} (hput : ∀ s, put' (switch s) = switch' (put s)) :
    Switched switch' (c.lift put) (c'.lift put') :=
  ⟨h.outcome, (congrArg put' h.after).trans (hput c.after)⟩

/-- Calls one after the other are switched if both are. -/
theorem Switched.andThen {c c' : Call σ α} (h : Switched switch c c')
    {next next' : α → σ → Call σ β}
    (hnext : ∀ a s, Switched switch (next a s) (next' a (switch s))) :
    Switched switch (c.andThen next) (c'.andThen next') := by
  cases ho : c.outcome with
  | error failure =>
    rw [andThen_of_error ho, andThen_of_error (h.outcome.trans ho)]
    exact ⟨rfl, h.after⟩
  | ok a =>
    have ho' : c'.outcome = .ok a := h.outcome.trans ho
    refine ⟨?_, ?_⟩
    · rw [outcome_andThen_of_ok ho, outcome_andThen_of_ok ho', h.after]
      exact (hnext a c.after).outcome
    · rw [after_andThen_of_ok ho, after_andThen_of_ok ho', h.after]
      exact (hnext a c.after).after

end Call

/-! ## Sessions -/

/-- Sessions of two such calls. They can differ in the lines written as well. -/
structure Session.Switched {ε : Type} (debug : Bool) (s s' : Session ε) : Prop where
  tracer : s'.tracer = s.tracer.withDebug debug
  steps : s'.steps = s.steps
  warnings : s'.warnings = s.warnings

namespace Session.Switched

variable {ε : Type} {debug : Bool} {s s' : Session ε}

theorem note (h : Switched debug s s') (message message' : String) :
    Switched debug (s.note message) (s'.note message') := ⟨h.tracer, h.steps, h.warnings⟩

theorem tick (h : Switched debug s s') : Switched debug s.tick s'.tick :=
  ⟨h.tracer, congrArg (· + 1) h.steps, h.warnings⟩

theorem record [Recorded ε] (h : Switched debug s s') (e : ε) :
    Switched debug (s.record e) (s'.record e) :=
  ⟨congrArg (·.push e) h.tracer, h.steps, h.warnings⟩

theorem finish (h : Switched debug s s') : s'.finish = s.finish.withDebug debug := by
  rw [Session.finish, h.tracer, h.steps, h.warnings]
  rfl

end Session.Switched

/-- A session in which, since another one, some events were put on record, and nothing
    was written but the line of each that has one. -/
structure Session.Logged {ε : Type} [Recorded ε] (s t : Session ε) (events : List ε) : Prop where
  tracer : t.tracer = { s.tracer with events := s.tracer.events ++ events }
  lines : t.lines =
    s.lines ++ written s.tracer.debug s.tracer.source (Tracer.descriptions events)

namespace Session.Logged

variable {ε : Type} [Recorded ε]

theorem nil (s : Session ε) : Logged s s [] := by
  refine ⟨?_, ?_⟩
  · rw [List.append_nil]
  · rw [Tracer.descriptions, List.filter_nil, List.map_nil, written_nil, List.append_nil]

/-- A step begins with no event. -/
theorem tick_record (s : Session ε) (e : ε) : Logged s (s.tick.record e) [e] :=
  ⟨rfl, congrArg (s.lines ++ ·) (s.tracer.eventLines_eq_written e)⟩

theorem trans {s t u : Session ε} {es fs : List ε} (h : Logged s t es) (h' : Logged t u fs) :
    Logged s u (es ++ fs) := by
  refine ⟨?_, ?_⟩
  · rw [h'.tracer, h.tracer, List.append_assoc]
  · rw [h'.lines, h.lines, h.tracer, Tracer.descriptions_append, written_append, List.append_assoc]

/-- A note after the events. -/
theorem lines_note {s t : Session ε} {events : List ε} (h : Logged s t events) (message : String) :
    (t.note message).lines =
      s.lines ++ written s.tracer.debug s.tracer.source
        (Tracer.descriptions events ++ [message]) := by
  have hnote : (t.note message).lines =
    t.lines ++ written t.tracer.debug t.tracer.source [message] := rfl
  rw [hnote, h.lines, h.tracer, written_append, List.append_assoc]

end Session.Logged

/-! ## Evaluators -/

namespace Shell

variable {ε α : Type} (s : Shell ε) (debug : Bool)

/-- A call of an evaluator is switched if its strategy is: the guard and the derivation
    have nothing to do with the flag. -/
theorem call_switched (derivation : Value)
    {strategy : List Value → Session ε → Except Failure α × Session ε}
    (h : ∀ steps, s.inFlight = false → derivation.items? = .ok steps →
      (strategy steps (s.withDebug debug).opening).1 = (strategy steps s.opening).1 ∧
        Session.Switched debug (strategy steps s.opening).2
          (strategy steps (s.withDebug debug).opening).2) :
    Call.Switched (fun s : Shell ε => s.withDebug debug) (s.call derivation strategy)
      ((s.withDebug debug).call derivation strategy) := by
  cases hf : s.inFlight with
  | true =>
    have hf' : (s.withDebug debug).inFlight = true := hf
    rw [call_of_inFlight hf, call_of_inFlight hf']
    exact ⟨rfl, rfl⟩
  | false =>
    have hf' : (s.withDebug debug).inFlight = false := hf
    cases hi : derivation.items? with
    | error f =>
      rw [call_of_not_iterable hf hi, call_of_not_iterable hf' hi]
      exact ⟨rfl, rfl⟩
    | ok steps =>
      rw [call_of_steps hf hi, call_of_steps hf' hi]
      obtain ⟨houtcome, hsession⟩ := h steps hf hi
      exact ⟨houtcome, hsession.finish⟩

theorem lock_switched :
    Call.Switched (fun s : Shell ε => s.withDebug debug) s.lock (s.withDebug debug).lock :=
  ⟨rfl, rfl⟩

theorem unlock_switched :
    Call.Switched (fun s : Shell ε => s.withDebug debug) s.unlock (s.withDebug debug).unlock := by
  rw [unlock, unlock]
  have hf : (s.withDebug debug).inFlight = s.inFlight := rfl
  rw [hf]
  split <;> exact ⟨rfl, rfl⟩

/-- A call touches nothing of the tracer but its events if its strategy does not. -/
theorem tracer_call (derivation : Value)
    {strategy : List Value → Session ε → Except Failure α × Session ε}
    (h : ∀ steps, ∃ events, (strategy steps s.opening).2.tracer = { s.tracer with events }) :
    ∃ events, (s.call derivation strategy).after.tracer = { s.tracer with events } := by
  cases hf : s.inFlight with
  | true =>
    rw [call_of_inFlight hf]
    exact ⟨s.tracer.events, rfl⟩
  | false =>
    cases hi : derivation.items? with
    | error f =>
      rw [call_of_not_iterable hf hi]
      exact ⟨[], rfl⟩
    | ok steps =>
      rw [call_of_steps hf hi]
      exact h steps

/-- The events a call puts on record that leaves `after`: those of the trace, but for a
    call that is refused, after which it is still the trace of the call before. -/
def recorded (s after : Shell ε) : List ε := if s.inFlight then [] else after.tracer.events

end Shell

/-- The note at the end of a call that returns; one that fails ends without. -/
def closingNotes {α : Type} (outcome : Except Failure α) (count : Nat) : List String :=
  match outcome with
  | .ok _ => [s!"Evaluation finished in {count} steps."]
  | .error _ => []

end Heptad
