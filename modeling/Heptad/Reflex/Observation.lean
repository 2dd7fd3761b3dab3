import Heptad.Failure
import Heptad.Value.Compare

/-!
# Observations

What an agent observes has a kind, a derivation that says what to do about it,
and data of any form. An observer answers its calls one after the other; it may
hand out given observations, or simulate them by drawing a random number each
time and taking one half of them for signs of pain.
-/

namespace Heptad.Reflex

/-- Something observed. -/
structure Observation where
  kind : String
  derivation : Value
  data : Value

/-- The derivation of a sign of pain. -/
def painDerivation : Value := .tuple [.morphism .apply, .morphism .neg, .morphism .cond]

/-- The derivation of an idle moment. -/
def idleDerivation : Value := .tuple [.morphism .identity]

/-- A simulated sign of pain. -/
def pain : Observation where
  kind := "potential_pain"
  derivation := painDerivation
  data := .mapping
    [(.str "id", .str "simulated-error"),
      (.str "description", .str "A random simulated error occurred.")]

/-- An idle moment. -/
def idle : Observation := ⟨"no_event", idleDerivation, .null⟩

/-- What calls are answered, by their number from zero. -/
abbrev Answers (α : Type) := Nat → Except Failure α

/-- Answers from a list, in order, until there are none left. -/
def Answers.ofList {α : Type} (xs : List (Except Failure α)) : Answers α :=
  fun n => xs[n]?.getD (.error (.fault .exhausted))

/-- An observer that hands out given observations. -/
def queue (observations : List Observation) : Answers Observation :=
  .ofList (observations.map .ok)

/-- One half. -/
def half : Binary64 := .ofDecimal false ⟨5, -1⟩

/-- What a random number is taken for. -/
def simulate (draw : Value) : Except Failure Observation :=
  ((draw.lt? (.float half)).map fun low => if low then pain else idle).mapError .fault

/-- An observer that simulates its observations with these random numbers. -/
def simulation (draws : List Value) : Answers Observation := .ofList (draws.map simulate)

end Heptad.Reflex
