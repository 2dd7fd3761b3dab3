import Heptad.Primitive
import Heptad.Trace

/-!
# Transitions of the stack machine

One event for each executed step, and one for each warning. Depths count how
many conditionals a derivation is nested in.
-/

namespace Heptad.Stack

/-- What a transition of the stack machine did. -/
inductive Action where
  /-- A literal's value was pushed. -/
  | pushed (v : Value) (depth : Nat)
  /-- A morphism was pushed as a token. -/
  | passed (m : Morphism) (depth : Nat)
  /-- A sub-derivation was pushed as a token. -/
  | passedSub (steps depth : Nat)
  /-- A primitive was applied, by name or, if implicit, once more. -/
  | applied (primitive : Primitive) (args : List Value) (result : Value) (implicit : Bool)
    (depth : Nat)
  /-- A conditional was decided; a nested branch was run for its result. -/
  | decided (condition nested : Bool) (result : Value) (depth : Nat)
  /-- Something was worth a warning. -/
  | warned (message : String)

/-- Whether the values an action shows have a text. -/
def Action.isShowable : Action → Bool
  | pushed v _ | decided _ _ v _ => v.isShowable
  | applied _ args result _ _ => Value.areShowable args && result.isShowable
  | passed .. | passedSub .. | warned _ => true

/-- A transition and the number of the step in which it was recorded. -/
structure Event where
  step : Nat
  action : Action

namespace Event

/-- Whether an event is a warning. -/
def isWarning (e : Event) : Bool :=
  match e.action with
  | .warned _ => true
  | _ => false

/-- A depth as a fact. -/
def depthFact (depth : Nat) : String × Value := ("depth", .int depth)

/-- The record of a transition. -/
def toRecord (e : Event) : Record :=
  match e.action with
  | .pushed v depth => ⟨.int e.step, "literal", none, [("value", v), depthFact depth]⟩
  | .passed m depth => ⟨.int e.step, "passthrough", m.symbol, [depthFact depth]⟩
  | .passedSub steps depth =>
    ⟨.int e.step, "passthrough", none, [depthFact depth, ("steps", .int steps)]⟩
  | .applied p args result implicit depth =>
    ⟨.int e.step, "apply", Morphism.apply.symbol,
      [("primitive", .str p.name), ("args", .list args), ("result", result),
        ("implicit", .bool implicit), depthFact depth]⟩
  | .decided condition nested result depth =>
    ⟨.int e.step, "cond", Morphism.cond.symbol,
      [("condition", .bool condition), ("branch", .str (if condition then "then" else "else")),
        ("nested", .bool nested), ("result", result), depthFact depth]⟩
  | .warned message => ⟨.int e.step, "warning", none, [("message", .str message)]⟩

/-- Whether an event can be described. -/
def isShowable (e : Event) : Bool := e.action.isShowable

instance : Recorded Event := ⟨toRecord, isShowable⟩

end Event

end Heptad.Stack
