import Heptad.Field.Basic
import Heptad.Session
import Heptad.Table.Rules

/-!
# The field evaluator

A state machine over bare morphisms. Its state is a field and the two latest
morphisms. An incoming morphism addresses, after these two, a cell of a table
of three sides: with a rule there the field collapses to the result, without
one the morphism adds to its own weight. Either way it joins the history.

Field and history persist from call to call. A derivation is checked as a whole
before anything is touched: a step that is no morphism leaves all as it was.
-/

namespace Heptad

namespace Field

/-- The state of the machine. -/
structure State where
  field : Field
  /-- The morphism before the latest. -/
  first : Morphism
  /-- The latest morphism. -/
  second : Morphism

namespace State

/-- The state of a machine that nothing has happened to. -/
def initial : State := ⟨oneHot .identity, .identity, .identity⟩

/-- The cell an incoming morphism addresses. -/
def window (s : State) (m : Morphism) : Triple := (s.first, s.second, m)

/-- The field after an incoming morphism. -/
def fieldAfter (t : Table3) (s : State) (m : Morphism) : Field :=
  match t.cell (s.window m) with
  | some r => oneHot r
  | none => s.field.bump m

/-- The state after an incoming morphism. -/
def step (t : Table3) (s : State) (m : Morphism) : State := ⟨s.fieldAfter t m, s.second, m⟩

/-- The state after several morphisms. -/
def run (t : Table3) (s : State) (ms : List Morphism) : State := ms.foldl (step t) s

/-- The history as morphisms in order. -/
def history (s : State) : List Morphism := [s.first, s.second]

end State

/-- A transition: the incoming morphism, the cell it addressed, what the cell
    held, and the field afterwards. -/
structure Event where
  step : Nat
  incoming : Morphism
  window : Triple
  result : Option Morphism
  field : Field

namespace Event

/-- The glyphs of a cell's address. -/
def cellFact (window : Triple) : String × Value :=
  ("cell", .texts ((Address.toList window).map Morphism.symbol))

/-- The record of a transition. -/
def toRecord (e : Event) : Record :=
  match e.result with
  | some r =>
    ⟨.int e.step, "collapse", e.incoming.symbol,
      [cellFact e.window, ("result", .str r.symbol), ("field", e.field.toValue)]⟩
  | none =>
    ⟨.int e.step, "accumulate", e.incoming.symbol,
      [cellFact e.window, ("field", e.field.toValue)]⟩

instance : Recorded Event := ⟨toRecord, fun _ => true⟩

end Event

/-- The morphism a step of the field language is; `index` counts from one. -/
def accept (index : Nat) : Value → Except EvalError Morphism
  | .morphism m => .ok m
  | .int i => (Value.int i).toMorphism?
  | v => .error (.notAMorphism index v)

/-- The morphisms of a derivation, the first wrong step deciding. -/
def acceptAll (index : Nat) : List Value → Except EvalError (List Morphism)
  | [] => .ok []
  | v :: vs => do
    let m ← accept index v
    return m :: (← acceptAll (index + 1) vs)

/-- A transition within a session. -/
def transition (t : Table3) (s : State × Session Event) (m : Morphism) : State × Session Event :=
  let (state, session) := s
  let session := session.tick
  let after := state.step t m
  (after, session.record
    ⟨session.steps, m, state.window m, t.cell (state.window m), after.field⟩)

/-- An evaluator with its table and state. -/
structure Evaluator where
  shell : Shell Event
  table : Table3
  state : State

/-- The history a value describes: two morphisms; without a value, twice the
    identity. -/
def historySeed : Value → Except Failure (Morphism × Morphism)
  | .null => .ok (.identity, .identity)
  | v => do
    let items ← v.items?.mapError .fault
    match ← (Table.addresses items).mapError EvalError.raised with
    | [first, second] => .ok (first, second)
    | ms => .error (.fault (.historyLength ms.length))

/-- What an evaluator can be given as its table. -/
inductive TableChoice where
  /-- The table of all rules. -/
  | standard
  /-- A table of three sides. -/
  | three (t : Table3)
  /-- A table of two sides, which does not fit. -/
  | two (t : Table2)
  /-- Something that is no table; null leaves the choice open. -/
  | value (v : Value)

/-- The table chosen. -/
def TableChoice.table : TableChoice → Except Fault Table3
  | standard | value .null => .ok .standard3
  | three t => .ok t
  | two _ => .error (.notATable (Address.tableName Pair2))
  | value v => .error (.notATable v.typeName)

namespace Evaluator

/-- The name of the strategy. -/
def name : String := "FieldEvaluator"

/-- A new evaluator with a table and seeds for its field and its history,
    checked in this order. -/
def new (debug field history : Value) (choice : TableChoice) : Except Failure Evaluator := do
  let table ← choice.table.mapError .fault
  let field ← Field.ofSeed field
  let (first, second) ← historySeed history
  return ⟨.new name debug, table, ⟨field, first, second⟩⟩

/-- A new evaluator in the initial state with the table of all rules. -/
def standard (debug : Value) : Evaluator := ⟨.new name debug, .standard3, .initial⟩

/-- A derivation run within a session, from a state. -/
def strategy (t : Table3) (state : State) (steps : List Value) (session : Session Event) :
    Except Failure State × Session Event :=
  match acceptAll 1 steps with
  | .error e => (.error e.raised, session)
  | .ok ms =>
    let history := Value.commas (state.history.map Morphism.symbol)
    let session := session.note s!"Evaluating derivation ({ms.length} steps)..."
    let session := session.note s!"Initial Field: {state.field.brief}"
    let session := session.note s!"Initial History: [{history}]"
    let (state, session) := ms.foldl (transition t) (state, session)
    (.ok state, session.note s!"Evaluation finished in {session.steps} steps.")

/-- The evaluation of a value given as derivation, answered with the field. -/
def evaluate (e : Evaluator) (derivation : Value) : Call Evaluator Field :=
  let call := e.shell.call derivation (strategy e.table e.state)
  match call.outcome with
  | .ok state => ⟨.ok state.field, call.lines, { e with shell := call.after, state }⟩
  | .error failure => ⟨.error failure, call.lines, { e with shell := call.after }⟩

/-- The evaluator back in the initial state. -/
def reset (e : Evaluator) : Evaluator := { e with state := .initial }

/-- Taking the guard. -/
def lock (e : Evaluator) : Call Evaluator Bool := e.shell.lock.lift fun shell => { e with shell }

/-- Giving the guard back. -/
def unlock (e : Evaluator) : Call Evaluator Unit :=
  e.shell.unlock.lift fun shell => { e with shell }

end Evaluator

end Field

end Heptad
