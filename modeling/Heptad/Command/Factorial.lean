import Heptad.Command.Exit
import Heptad.Derivation.Canonical
import Heptad.Derivation.Factorial
import Heptad.Stack.Evaluator

/-!
# Factorials demonstrated

The command runs the continued form of the factorial of three and shows its
trace, and then some unrolled factorials with their lengths and hashes.
-/

namespace Heptad.Command.Factorial

/-- The factorials shown. -/
def shown : List Nat := [0, 1, 4, 5, 10]

/-- A derivation evaluated on an evaluator. -/
def evaluate (e : Stack.Evaluator) (d : Derivation) : Except Exit (Value × Stack.Evaluator) :=
  let call := e.evaluate (.tuple d)
  match call.outcome with
  | .ok v => .ok (v, call.after)
  | .error f => .error (.failure f)

/-- The line that shows a factorial, and the evaluator afterwards. -/
def line (e : Stack.Evaluator) (n : Nat) : Except Exit (String × Stack.Evaluator) := do
  let d := Derivation.factorial n
  let (v, e) ← evaluate e d
  let hash ← (Derivation.hash d).mapError .failure
  let number := padLeft 2 (toString n)
  let value := padRight 8 v.text
  let start := String.ofList (hash.toList.take 12)
  return (s!"  {number}! = {value} ({d.length} steps, hash {start})", e)

/-- The lines that show several factorials. -/
def lineAll (e : Stack.Evaluator) : List Nat → Except Exit (List String)
  | [] => .ok []
  | n :: ns => do
    let (shown, e) ← line e n
    return shown :: (← lineAll e ns)

/-- The command. -/
def report : Report := do
  let d := Derivation.continuedFactorial 3
  let (v, e) ← evaluate (.new .null .null) d
  let trace := e.shell.tracer.events.map fun event => s!"    {describe event}"
  let compiled ← lineAll e shown
  return lines (heading "LAMBDA7 FACTORIAL DEMO"
    ++ ["Hand-unrolled 3!:", s!"  {Derivation.render d}"] ++ trace
    ++ [s!"  -> {v.text} in {e.shell.steps} steps", "", "Compiled factorials:"] ++ compiled
    ++ ["", rule])

end Heptad.Command.Factorial
