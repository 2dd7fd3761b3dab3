import Heptad.Derivation.Canonical
import Heptad.Field.Evaluator
import Heptad.Reflex.Clock
import Heptad.Reflex.Observation

/-!
# The reflex loop

An agent goes round a cycle: it observes, decides whether what it observed
carries work, acts by running the derivation through its processor, and learns
by writing the outcome into its state. The processor is a field evaluator of
its own, whose field and history carry over from one cycle to the next; if an
evaluation fails it is replaced by a new one.

The observer, the clock and the handler that is told of evaluated observations
are part of the surroundings. Nothing is assumed of them: each of their calls
has some answer, which may be a failure.

All updates of the agent's state are computed before any of them is made. The
message that shows the state comes after them, and is the one thing that can
still fail.
-/

namespace Heptad

namespace Reflex

/-- What is to be done about an observation: the work it carries. -/
def processAction : String := "process_derivation"

/-- What is to be done about an observation: nothing. -/
def idleAction : String := "idle"

/-- What is told of evaluated observations that have data, call by call. -/
abbrev Handler := Nat → Observation → Field → Except Failure Unit

/-- A handler that takes note of everything it is told. -/
def accepting : Handler := fun _ _ _ => .ok ()

/-- A handler that always gives up. -/
def refusing : Handler := fun _ _ _ => .error (.fault .handlerFailed)

/-- What an agent depends on: where its observations and the time come from,
    and who is told of what it evaluates. -/
structure Surroundings where
  observer : Answers Observation
  clock : Answers String
  handler : Option Handler

/-- An agent and its cycle. -/
structure Loop where
  agentId : String
  surroundings : Surroundings
  debug : Value
  /-- The state of the agent, in the order its keys were put in. -/
  agentState : List (Value × Value)
  processor : Field.Evaluator
  tracer : Tracer Record
  /-- The cycles completed. -/
  iterations : Nat
  /-- How often the processor was replaced. -/
  rebuilds : Nat
  /-- The observations asked for. -/
  observed : Nat
  /-- The readings taken of the clock. -/
  readings : Nat
  /-- What the handler was told, in order. -/
  told : List (Observation × Field)

/-- What a cycle saw, decided and produced. -/
structure Outcome where
  observation : Observation
  action : String
  field : Option Field
  dominant : Option Morphism

/-- The state of an agent with a key set; a key that is there keeps its place. -/
def put (entries : List (Value × Value)) (key : String) (v : Value) : List (Value × Value) :=
  if entries.any fun e => e.1.eq (.str key) then
    entries.map fun e => if e.1.eq (.str key) then (e.1, v) else e
  else entries ++ [(.str key, v)]

/-- The state of an agent with several keys set in order. -/
def putAll (entries : List (Value × Value)) (updates : List (String × Value)) :
    List (Value × Value) :=
  updates.foldl (fun entries u => put entries u.1 u.2) entries

namespace Loop

/-- A new loop. -/
def new (agentId : String) (surroundings : Surroundings) (agentState : List (Value × Value))
    (debug : Value) : Loop where
  agentId := agentId
  surroundings := surroundings
  debug := debug
  agentState := agentState
  processor := .standard debug
  tracer := .new "ReflexLoop" debug
  iterations := 0
  rebuilds := 0
  observed := 0
  readings := 0
  told := []

/-- The agent's state as a value. -/
def stateValue (l : Loop) : Value := .mapping l.agentState

/-- What the handler was told and did not give up on, from a call on. -/
def noted (l : Loop) (start : Nat) : List (Observation × Field) :=
  ((l.told.zipIdx.drop start).filter fun ((o, field), n) =>
    l.surroundings.handler.any fun handle => (handle n o field).toBool).map Prod.fst

/-! ## Parts of a cycle -/

/-- A message of the loop. -/
@[inline] def note (l : Loop) (message : String) : Call Loop Unit :=
  ⟨.ok (), l.tracer.lines message, l⟩

/-- A message that shows values. It is put together, which they may not allow, whether or
    not it is written. -/
def noteShown (l : Loop) (showable : Bool) (message : String) : Call Loop Unit :=
  if showable then l.note message else ⟨.error (.fault .tooManyDigits), [], l⟩

/-- A result computed without touching the loop. -/
def give {α : Type} (l : Loop) (outcome : Except Failure α) : Call Loop α := ⟨outcome, [], l⟩

/-- The next observation. -/
def observe (l : Loop) : Call Loop Observation :=
  (l.note "Observing...").andThen fun _ l =>
    ⟨l.surroundings.observer l.observed, [], { l with observed := l.observed + 1 }⟩

/-- The decision whether an observation carries work. -/
def evaluate (l : Loop) (o : Observation) : Call Loop String :=
  (l.note "Evaluating...").andThen fun _ l =>
    l.give (.ok (if o.derivation.truthy then processAction else idleAction))

/-- The evaluation of a derivation by the processor, which is replaced if the
    evaluation itself fails. -/
def process (l : Loop) (derivation : Value) : Call Loop Field :=
  let call := l.processor.evaluate derivation
  match call.outcome with
  | .error (.evaluation _) =>
    ⟨call.outcome, call.lines,
      { l with processor := .standard l.debug, rebuilds := l.rebuilds + 1 }⟩
  -- a fault in the value given as derivation is not held against the processor
  | _ => ⟨call.outcome, call.lines, { l with processor := call.after }⟩

/-- The handler told of an observation and the field it led to, if there is a
    handler and the observation has data. -/
def tell (l : Loop) (o : Observation) (field : Field) : Call Loop Unit :=
  match l.surroundings.handler, o.data with
  | none, _ | _, .null => l.give (.ok ())
  | some handle, _ =>
    ⟨handle l.told.length o field, [], { l with told := l.told ++ [(o, field)] }⟩

/-- The action decided upon, and the field it led to if it was any work. -/
def act (l : Loop) (o : Observation) (action : String) : Call Loop (Option Field) :=
  (l.note "Acting...").andThen fun _ l =>
    if action ≠ processAction then l.give (.ok none)
    else
      (l.give (o.derivation.items?.mapError .fault)).andThen fun steps l =>
        (l.noteShown (Value.areShowable steps)
          s!"Processing Derivation: {Derivation.render steps}").andThen fun _ l =>
          (l.process o.derivation).andThen fun field l =>
            (l.tell o field).andThen fun _ l => l.give (.ok (some field))

/-- The updates that record a field: its dominant morphism, its weights and the
    hash of the derivation that led to it. -/
def lessons (o : Observation) (field : Value) :
    Except Failure (Morphism × List (String × Value)) := do
  let dominant ← field.dominant?.mapError .fault
  let weights ← field.items?.mapError .fault
  let steps ← o.derivation.items?.mapError .fault
  let hash ← Derivation.hash steps
  return (dominant,
    [("last_dominant_morphism", .str dominant.symbol), ("tensor_field_state", .list weights),
      ("derivation_hash", .str hash)])

/-- The next reading of the clock. -/
def readClock (l : Loop) : Call Loop String :=
  ⟨l.surroundings.clock l.readings, [], { l with readings := l.readings + 1 }⟩

/-- The outcome of an observation written into the agent's state, and the
    dominant morphism if there was a field. -/
def learn (l : Loop) (o : Observation) (field : Value) : Call Loop (Option Morphism) :=
  (l.note "Learning...").andThen fun _ l =>
    l.readClock.andThen fun time l =>
      let update := ("last_reflex_time", Value.str time)
      match field with
      | .null => ⟨.ok none, [], { l with agentState := putAll l.agentState [update] }⟩
      | field =>
        -- nothing is written before everything that is written has been computed
        (l.give (lessons o field)).andThen fun (dominant, updates) l =>
          let l := { l with agentState := putAll l.agentState (update :: updates) }
          (l.noteShown l.stateValue.isShowable
            s!"Agent {l.agentId} state updated: {l.stateValue.repr}").andThen fun _ l =>
            l.give (.ok (some dominant))

/-- One cycle. -/
def run (l : Loop) : Call Loop Outcome :=
  l.observe.andThen fun observation l =>
    (l.evaluate observation).andThen fun action l =>
      (l.act observation action).andThen fun field l =>
        (l.learn observation ((field.map Field.toValue).getD .null)).andThen fun dominant l =>
          let l := { l with iterations := l.iterations + 1 }
          (l.note "Iteration complete.").andThen fun _ l =>
            l.give (.ok ⟨observation, action, field, dominant⟩)

/-- Taking the guard of the processor. -/
def lock (l : Loop) : Call Loop Bool :=
  l.processor.lock.lift fun processor => { l with processor }

end Loop

end Reflex

end Heptad
