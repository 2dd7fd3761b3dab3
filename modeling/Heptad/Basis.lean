import Heptad.Failure

/-!
# Addresses in the basis

A morphism is addressed by itself or by its ordinal. Truth values are integers
but never addresses.
-/

namespace Heptad

namespace Value

/-- The morphism a value addresses. -/
def toMorphism? : Value → Except EvalError Morphism
  | morphism m => .ok m
  | int i =>
    match Morphism.ofInt? i with
    | some m => .ok m
    | none => .error (.outsideBasis i)
  | v => .error (.notAnIndex v)

/-- Whether a value is the mark of a cell without a rule. -/
def isNoRule : Value → Bool
  | noRule => true
  | _ => false

end Value

end Heptad
