import Heptad.Derivation.Render
import Heptad.Value.Compare

/-!
# Factorials

The calculus has no recursion, so a factorial is unrolled before it is run: the
product is folded from the left in postfix order, naming the primitive at every
factor. The *continued* form names it once and lets each further application
apply it again.
-/

namespace Heptad

namespace Derivation

/-- The steps that multiply what is on the stack by a factor. -/
def times (factor : Nat) : Derivation :=
  [.literal (.int factor), .literal (.str "multiply"), .morphism .apply]

/-- The steps that multiply what is on the stack by a factor once more. -/
def timesAgain (factor : Nat) : Derivation := [.literal (.int factor), .morphism .apply]

/-- The factorial of an integer; one for those below one. -/
def factorial (n : Int) : Derivation :=
  .literal (.int 1) :: (List.range (n - 1).toNat).flatMap fun i => times (i + 2)

/-- The factorial of a positive number, naming the primitive once. -/
def continuedFactorial (n : Nat) : Derivation :=
  .literal (.int 1) :: times 1 ++ (List.range (n - 1)).flatMap fun i => timesAgain (i + 2)

/-- The factorial of a value, which has to be an integer unless it is below one. -/
def factorialOf (v : Value) : Except Fault Derivation := do
  if ← v.lt? (.int 1) then return factorial 1
  else match v.int? with
    | some n => return factorial n
    | none => .error (.notInteger v.typeName)

end Derivation

end Heptad
