import Heptad.Command.Exit
import Heptad.Reflex.Loop
import Heptad.Text.Blank

/-!
# The reflex loop demonstrated

The command lets an agent go through some cycles with simulated observations
and shows what each of them came to, and the state of the agent at the end.
Random numbers and the clock are given from outside.
-/

namespace Heptad.Command.Reflex

open Heptad.Reflex

/-- What the command is asked for. -/
structure Request where
  cycles : Int
  seed : Int

/-- The integer an argument names. -/
def readInt (arg : String) : Except Exit Int :=
  (Numeral.read arg).mapError fun f => .failure (.fault f)

/-- What arguments ask for: the number of cycles and a seed. -/
def request : List String → Except Exit Request
  | [] => .ok ⟨5, 7⟩
  | [cycles] => do return ⟨← readInt cycles, 7⟩
  | cycles :: seed :: _ => do
    let cycles ← readInt cycles
    return ⟨cycles, ← readInt seed⟩

/-- The lines that show a cycle. -/
def cycleLines (number : Nat) (o : Outcome) : List String :=
  let dominant := (o.dominant.map Morphism.symbol).getD "-"
  let kind := padRight 15 o.observation.kind
  let action := padRight 20 o.action
  s!"  [{number}] {kind} {action} dominant={dominant}" ::
    match o.field with
    | none => []
    | some field => [s!"      field={field.toValue.repr}"]

/-- The lines that show further cycles, and the loop afterwards. -/
def cycles (l : Loop) (number : Nat) : Nat → Except Exit (List String × Loop)
  | 0 => .ok ([], l)
  | more + 1 => do
    let call := l.run
    let outcome ← call.outcome.mapError .failure
    let (rest, l) ← cycles call.after (number + 1) more
    return (cycleLines number outcome ++ rest, l)

/-- The agent of the demonstration. -/
def agent (draws : List Value) (clock : Answers String) : Loop :=
  .new "agent://demo" ⟨simulation draws, clock, some accepting⟩ [] .null

/-- The command, once its arguments are read. -/
def report (r : Request) (draws : List Value) (clock : Answers String) : Report := do
  let (shown, l) ← cycles (agent draws clock) 1 r.cycles.toNat
  return lines (heading "LAMBDA7 REFLEX LOOP DEMO" ++ shown
    ++ ["", s!"Events recorded: {l.told.length}",
      s!"Final agent state: {l.stateValue.repr}", rule])

end Heptad.Command.Reflex
