/-!
# Signatures

The parameters a function declares decide how many operands it takes: the
positional ones at the start of the list up to the first that is not required.
-/

namespace Heptad

/-- The ways a parameter is filled. -/
inductive ParameterKind where
  /-- By position only. -/
  | positionalOnly
  /-- By position or by name. -/
  | positional
  /-- By all further positions. -/
  | allPositions
  /-- By name only. -/
  | named
  /-- By all further names. -/
  | allNames
  deriving DecidableEq

/-- A declared parameter. -/
structure Parameter where
  kind : ParameterKind
  hasDefault : Bool
  deriving DecidableEq

/-- Whether a parameter needs an argument at a position of its own. -/
def Parameter.isRequired (p : Parameter) : Bool :=
  (p.kind = .positionalOnly || p.kind = .positional) && !p.hasDefault

/-- How many operands a function with these parameters takes. -/
def declaredArity (parameters : List Parameter) : Nat :=
  (parameters.takeWhile Parameter.isRequired).length

end Heptad
