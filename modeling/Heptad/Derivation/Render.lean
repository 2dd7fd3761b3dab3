import Heptad.Value.Text

/-!
# Derivations and their text

A derivation is a list of steps. It is shown step by step: morphisms and
ordinals as glyphs, literals as the value they push, sub-derivations in
brackets, and anything that is no step in angle brackets.
-/

namespace Heptad

/-- A list of steps; they are values, and not checked before they are run. -/
abbrev Derivation := List Value

namespace Derivation

/-- Parts between blanks. -/
def blanks (parts : List String) : String := String.intercalate " " parts

mutual

/-- A step shown. -/
def renderStep : Value → String
  | .morphism m => m.symbol
  | .int i =>
    match Morphism.ofInt? i with
    | some m => m.symbol
    | none => s!"<{i}>"
  | .literal v => v.repr
  | .sub steps => s!"[{blanks (renderSteps steps)}]"
  | v => s!"<{v.repr}>"

/-- Several steps shown. -/
def renderSteps : List Value → List String
  | [] => []
  | v :: vs => renderStep v :: renderSteps vs

end

/-- A derivation shown. -/
def render (d : Derivation) : String := blanks (renderSteps d)

end Derivation

end Heptad
