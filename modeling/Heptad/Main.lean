import Heptad.Command.Factorial
import Heptad.Command.Reflex
import Heptad.Command.Tables

/-!
# The command line

The first argument names a command: `tables`, `factorial` or `reflex`; the
others are its own.
-/

namespace Heptad

/-- Random numbers from zero up to below one. -/
def randomDraws (n : Nat) : IO (List Value) :=
  (List.range n).mapM fun _ => do
    let thousandths ← IO.rand 0 999
    return .float (.ofDecimal false ⟨thousandths, -3⟩)

/-- The report of the reflex demonstration. Its clock stands still. -/
def reflexReport (args : List String) : IO Command.Report := do
  match Command.Reflex.request args with
  | .error e => return .error e
  | .ok r =>
    IO.setRandSeed r.seed.natAbs
    let draws ← randomDraws r.cycles.toNat
    return Command.Reflex.report r draws (Reflex.steady "NOW")

/-- The report of the command the arguments name. -/
def reportOf (args : List String) : IO Command.Report :=
  match args with
  | "tables" :: rest => return Command.Tables.report rest
  | "factorial" :: _ => return Command.Factorial.report
  | "reflex" :: rest => reflexReport rest
  | _ => return .error (.status 2)

end Heptad

/-- Prints the report of a command, or stops as it says. -/
def main (args : List String) : IO UInt32 := do
  match ← Heptad.reportOf args with
  | .ok text =>
    IO.print text
    return 0
  | .error (.status n) => return n.toUInt32
  | .error (.failure f) =>
    IO.eprintln f.message
    return 1
