import Heptad.Stack.Machine

/-!
# The stack evaluator

An evaluator for the full step language: it runs a derivation on the stack
machine and answers with the value at the bottom of the stack. Between calls
it keeps nothing but the count, the warnings and the trace of the latest one.
-/

namespace Heptad

namespace Stack

/-- An evaluator and the deepest nesting it allows. -/
structure Evaluator where
  shell : Shell Event
  limit : Value

namespace Evaluator

/-- The name of the strategy. -/
def name : String := "StackEvaluator"

/-- The deepest nesting allowed unless told otherwise. -/
def defaultLimit : Nat := 100

/-- A new evaluator; a missing limit means the default one. -/
def new (debug limit : Value) : Evaluator where
  shell := .new name debug
  limit := match limit with
    | .null => .int defaultLimit
    | v => v

/-- A derivation run within a session. -/
def strategy (limit : Value) (steps : List Value) (session : Session Event) :
    Except Failure Value × Session Event :=
  let session := session.note s!"Evaluating derivation ({steps.length} steps)..."
  match runDerivation limit steps session with
  | (.ok v, session) => (.ok v, session.note s!"Evaluation finished in {session.steps} steps.")
  | (.error e, session) => (.error e, session)

/-- The evaluation of a value given as derivation. -/
def evaluate (e : Evaluator) (derivation : Value) : Call Evaluator Value :=
  (e.shell.call derivation (strategy e.limit)).lift fun shell => { e with shell }

/-- Taking the guard. -/
def lock (e : Evaluator) : Call Evaluator Bool := e.shell.lock.lift fun shell => { e with shell }

/-- Giving the guard back. -/
def unlock (e : Evaluator) : Call Evaluator Unit :=
  e.shell.unlock.lift fun shell => { e with shell }

end Evaluator

end Stack

end Heptad
