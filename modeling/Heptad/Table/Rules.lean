import Heptad.Table.Basic

/-!
# Rules of interaction

A rule writes morphisms into cells, one after the other. A table is built by
applying rules in order to the empty one, so a later rule overrides an earlier,
more general one: reduction of a function overrides absorption of the identity.
-/

namespace Heptad

/-- A named list of cells to write. -/
structure Rule (ι : Type) where
  name : String
  writes : List (ι × Morphism)

namespace Table

variable {ι : Type} [DecidableEq ι]

/-- A table with cells written in order. -/
def writeAll (t : Table ι) (writes : List (ι × Morphism)) : Table ι :=
  writes.foldl (fun t w => t.set w.1 w.2) t

/-- The table built by rules in order. -/
def build (rules : List (Rule ι)) : Table ι :=
  rules.foldl (fun t r => t.writeAll r.writes) empty

end Table

namespace Rules

open Morphism

/-! ## Two sides -/

/-- The identity before or after a morphism leaves it. -/
def absorption2 : Rule Pair2 :=
  ⟨"identity_absorption", all.flatMap fun x => [((identity, x), x), ((x, identity), x)]⟩

/-- A negation takes back a negation. -/
def involution : Rule Pair2 := ⟨"involution", [((neg, neg), identity)]⟩

/-- The identity function applied leaves its argument. -/
def betaIdentity : Rule Pair2 := ⟨"beta_identity", [((lambda, apply), identity)]⟩

/-- A conditional remains one until its arguments are there. -/
def conditional : Rule Pair2 :=
  ⟨"conditional", [((identity, cond), cond), ((cond, identity), cond), ((cond, apply), cond)]⟩

/-- A pair can be begun. -/
def pairing : Rule Pair2 := ⟨"pairing", [((identity, pair), pair)]⟩

/-- The rules of two sides in order. -/
def all2 : List (Rule Pair2) := [absorption2, involution, betaIdentity, conditional, pairing]

/-! ## Three sides -/

/-- The identity in one of the first two places forwards the third, and as the
    incoming morphism keeps the first. -/
def absorption3 : Rule Triple :=
  ⟨"identity_absorption", all.flatMap fun i => all.flatMap fun j =>
    -- the order decides cells with two identities
    [((identity, i, j), j), ((i, identity, j), j), ((i, j, identity), i)]⟩

/-- A negation takes back a negation. -/
def doubleNegation : Rule Triple := ⟨"double_negation", [((identity, neg, neg), identity)]⟩

/-- The identity function applied to the identity gives the identity. -/
def betaReduction : Rule Triple := ⟨"beta_reduction", [((lambda, identity, apply), identity)]⟩

/-- The rules of three sides in order. -/
def all3 : List (Rule Triple) := [absorption3, doubleNegation, betaReduction]

end Rules

/-- The rules named by a list, in its order; none if some name is unknown. -/
def Rule.named {ι : Type} (rules : List (Rule ι)) (names : List String) :
    Option (List (Rule ι)) :=
  names.mapM fun name => rules.find? fun r => r.name = name

/-- The table of two sides that all rules build. -/
def Table.standard2 : Table2 := .build Rules.all2

/-- The table of three sides that all rules build. -/
def Table.standard3 : Table3 := .build Rules.all3

end Heptad
