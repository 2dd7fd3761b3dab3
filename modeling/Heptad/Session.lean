import Heptad.Failure
import Heptad.Trace

/-!
# Calls of an evaluator

What every evaluator keeps, whatever its strategy: the count of executed steps,
the warnings and the trace of its latest call, and a guard that admits one call
at a time. Between calls this is a `Shell`, during a call a `Session`. A call
made while the guard is held is refused and leaves everything as it was; a call
that was admitted gives the guard back however it ends.
-/

namespace Heptad

/-- What an evaluator keeps between calls. -/
structure Shell (ε : Type) where
  tracer : Tracer ε
  /-- The steps executed by the latest call. -/
  steps : Nat
  /-- The warnings of the latest call. -/
  warnings : List String
  /-- Whether the guard is held. -/
  inFlight : Bool

/-- What an evaluator keeps during a call, which holds the guard. -/
structure Session (ε : Type) where
  tracer : Tracer ε
  /-- The steps begun so far. -/
  steps : Nat
  warnings : List String
  /-- The lines written so far. -/
  lines : List String

/-- How a call ended, what it wrote, and the state it left. -/
structure Call (σ α : Type) where
  outcome : Except Failure α
  lines : List String
  after : σ

/-- A call on a part of a state, as one on the whole. -/
def Call.lift {σ τ α : Type} (c : Call σ α) (put : σ → τ) : Call τ α :=
  ⟨c.outcome, c.lines, put c.after⟩

/-- A call followed by another one on the state it left, unless it failed. -/
def Call.andThen {σ α β : Type} (c : Call σ α) (next : α → σ → Call σ β) : Call σ β :=
  match c.outcome with
  | .error e => ⟨.error e, c.lines, c.after⟩
  | .ok a =>
    let d := next a c.after
    ⟨d.outcome, c.lines ++ d.lines, d.after⟩

namespace Session

variable {ε : Type}

/-- A free-form message; it is not recorded. -/
@[inline] def note (s : Session ε) (message : String) : Session ε :=
  { s with lines := s.lines ++ s.tracer.lines message }

/-- A transition put on record, and described if it can be. Whether recording fails
    is told by `Tracer.admits`. -/
def record [Recorded ε] (s : Session ε) (e : ε) : Session ε :=
  { s with tracer := s.tracer.push e, lines := s.lines ++ s.tracer.eventLines e }

/-- The session with one more step begun. -/
def tick (s : Session ε) : Session ε := { s with steps := s.steps + 1 }

/-- A warning, which is recorded as well. -/
def warn [Recorded ε] (s : Session ε) (message : String) (e : ε) : Session ε :=
  { s with warnings := s.warnings ++ [message] }.record e

/-- The answer to a call made from inside this one: the guard is held, so it is
    refused before its derivation is looked at. -/
def callback (s : Session ε) : List Value → Except EvalError Value :=
  fun _ => .error (.inFlight s.tracer.source)

/-- The end of a call, which gives the guard back. -/
def finish (s : Session ε) : Shell ε := ⟨s.tracer, s.steps, s.warnings, false⟩

end Session

namespace Shell

variable {ε α : Type}

/-- An evaluator that has not been called yet. -/
def new (source : String) (debug : Value) : Shell ε := ⟨.new source debug, 0, [], false⟩

/-- The start of a call, if the guard is free. -/
def start (s : Shell ε) : Except EvalError (Session ε) :=
  if s.inFlight then .error (.inFlight s.tracer.source)
  else .ok ⟨s.tracer.clear, 0, [], []⟩

/-- A call with a value given as derivation, run by a strategy. -/
def call (s : Shell ε) (derivation : Value)
    (strategy : List Value → Session ε → Except Failure α × Session ε) : Call (Shell ε) α :=
  match s.start with
  | .error e => ⟨.error (.evaluation e), [], s⟩
  | .ok session =>
    match derivation.items? with
    | .error f => ⟨.error (.fault f), session.lines, session.finish⟩
    | .ok steps =>
      let (outcome, session) := strategy steps session
      ⟨outcome, session.lines, session.finish⟩

/-- A call made while the guard is held is refused and changes nothing. -/
theorem call_of_inFlight {s : Shell ε} (h : s.inFlight = true) (derivation : Value)
    (strategy : List Value → Session ε → Except Failure α × Session ε) :
    s.call derivation strategy = ⟨.error (.evaluation (.inFlight s.tracer.source)), [], s⟩ := by
  simp [call, start, h]

/-- A call made while the guard is free leaves it free. -/
theorem inFlight_call {s : Shell ε} (h : s.inFlight = false) (derivation : Value)
    (strategy : List Value → Session ε → Except Failure α × Session ε) :
    (s.call derivation strategy).after.inFlight = false := by
  simp only [call, start, h]
  split
  · rename_i e he
    simp at he
  · split <;> rfl

/-- Taking the guard, and whether it was free. -/
def lock (s : Shell ε) : Call (Shell ε) Bool := ⟨.ok (!s.inFlight), [], { s with inFlight := true }⟩

/-- Giving the guard back, which has to be held. -/
def unlock (s : Shell ε) : Call (Shell ε) Unit :=
  if s.inFlight then ⟨.ok (), [], { s with inFlight := false }⟩
  else ⟨.error (.fault .notHeld), [], s⟩

/-! ## Without a strategy -/

/-- An evaluator without a strategy. -/
def bare (debug : Value) : Shell Record := new "Evaluator" debug

/-- The evaluation of a value given as derivation, which no strategy can run. -/
def evaluateBare (s : Shell Record) (derivation : Value) : Call (Shell Record) Value :=
  s.call derivation fun _ session => (.error (.fault .noStrategy), session)

end Shell

end Heptad
