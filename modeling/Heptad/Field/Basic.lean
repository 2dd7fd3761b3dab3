import Heptad.Basis
import Heptad.Binary64.Reader
import Heptad.Value.Compare

/-!
# Fields

A field has a floating-point weight for each morphism. It is no distribution:
weights are neither bounded nor normalised. The *dominant* morphism is the one
of least ordinal among those of the greatest weight.
-/

namespace Heptad

/-- A weight for each morphism, in the order of their ordinals. -/
abbrev Field := Vector Binary64 Morphism.count

namespace Field

/-- The weight of a morphism. -/
def weight (f : Field) (m : Morphism) : Binary64 :=
  have h := m.ordinal_lt
  f[m.ordinal]

/-- The field with the weight of one morphism replaced. -/
def setWeight (f : Field) (m : Morphism) (x : Binary64) : Field :=
  f.set m.ordinal x m.ordinal_lt

@[simp] theorem weight_setWeight_self (f : Field) (m : Morphism) (x : Binary64) :
    (f.setWeight m x).weight m = x := by
  simp [weight, setWeight]

theorem weight_setWeight_of_ne (f : Field) {m k : Morphism} (x : Binary64) (h : k ≠ m) :
    (f.setWeight m x).weight k = f.weight k := by
  have : m.ordinal ≠ k.ordinal := fun e => h (Morphism.ordinal_injective e).symm
  simp [weight, setWeight, this]

/-- The field of zero weights. -/
def zero : Field := Vector.replicate Morphism.count .zero

/-- The field of weight one at a morphism and zero elsewhere. -/
def oneHot (m : Morphism) : Field := zero.setWeight m .one

theorem weight_oneHot (m k : Morphism) :
    (oneHot m).weight k = if k = m then .one else .zero := by
  unfold oneHot
  split
  · rename_i h
    rw [h, weight_setWeight_self]
  · rename_i h
    rw [weight_setWeight_of_ne _ _ h]
    simp [weight, zero]

/-- The field with one added to the weight of a morphism. -/
def bump (f : Field) (m : Morphism) : Field := f.setWeight m ((f.weight m).add .one)

/-- A field as a list of values. -/
def toValue (f : Field) : Value := .list (f.toList.map .float)

/-- The exact texts of the weights. -/
def texts (f : Field) : List String := f.toList.map Binary64.text

/-- The brief texts of the weights, between brackets. -/
def brief (f : Field) : String := s!"[{Value.commas (f.toList.map Binary64.brief)}]"

/-- The field with the weights of a list, if they are one for each morphism. -/
def ofList? (weights : List Binary64) : Option Field :=
  if h : weights.length = Morphism.count then some ⟨weights.toArray, by simpa using h⟩ else none

end Field

namespace Value

/-- What is read off a text, which is shown if nothing can be. -/
def readOr (x : Option Binary64) (shown : String) : Except Fault Binary64 :=
  match x with
  | some x => .ok x
  | none => .error (.badFloat shown)

/-- A number, or the number a text names, as a floating-point number. -/
def toFloat : Value → Except Fault Binary64
  | str s => readOr (Binary64.ofText? s) (quoted s)
  | bytes b => readOr (Binary64.ofAscii? (b.map fun x => Char.ofNat x.toNat)) (quotedBytes b)
  | v =>
    match v.number? with
    | none => .error (.notReal v.typeName)
    | some n =>
      match n.toFloat? with
      | none => .error .intTooLarge
      | some x => .ok x

/-- Several values as floating-point numbers. -/
def toFloats : List Value → Except Fault (List Binary64)
  | [] => .ok []
  | v :: vs => do
    let x ← v.toFloat
    return x :: (← toFloats vs)

/-- The brief texts of several values. -/
def briefs : List Value → Except Fault (List String)
  | [] => .ok []
  | v :: vs => do
    let s ← v.brief
    return s :: (← briefs vs)

/-- The brief texts of the weights a value holds, between brackets. -/
def briefField (v : Value) : Except Fault String := do
  return s!"[{commas (← briefs (← v.items?))}]"

/-! ## The dominant morphism -/

/-- The greatest of several values and its place, given the greatest so far, its
    place and the place of the next. An equal value does not replace it. -/
def greatest (best : Value) (place next : Nat) : List Value → Except Fault (Value × Nat)
  | [] => .ok (best, place)
  | v :: vs => do
    if ← v.gt? best then greatest v next (next + 1) vs else greatest best place (next + 1) vs

/-- Whether a value equals itself: all do but not-a-number. -/
def equalsItself : Value → Bool
  | float .nan => false
  | _ => true

/-- The first place of a value that equals the greatest one. -/
def firstGreatest? (items : List Value) : Except Fault (Option Nat) :=
  match items with
  | [] => .ok none
  | v :: vs => do
    let (best, place) ← greatest v 0 1 vs
    return items.zipIdx.findIdx? fun (w, i) => w.eq best || (i = place && best.equalsItself)

/-- The dominant morphism of the weights a value holds. -/
def dominant? (v : Value) : Except Fault Morphism := do
  let n ← v.length?
  if n ≠ Morphism.count then .error (.fieldLength n)
  else
    match (← firstGreatest? (← v.items?)).bind Morphism.ofOrdinal? with
    | some m => .ok m
    | none => .error .noMaximum

end Value

namespace Field

/-- The dominant morphism of a field. -/
def dominant? (f : Field) : Except Fault Morphism := f.toValue.dominant?

/-! ## Seeds -/

/-- A field with the weights of a mapping from morphisms put in, each weight
    being read before its morphism. -/
def putAll (f : Field) : List (Value × Value) → Except Failure Field
  | [] => .ok f
  | (key, weight) :: rest => do
    -- of two faults in one entry that of the weight decides
    let x ← weight.toFloat.mapError .fault
    let m ← key.toMorphism?.mapError EvalError.raised
    putAll (f.setWeight m x) rest

/-- The field a value describes: a mapping from morphisms to weights, or one
    weight for each; without a value, weight one at the identity. -/
def ofSeed : Value → Except Failure Field
  | .null => .ok (oneHot .identity)
  | .mapping entries => zero.putAll entries
  | v => do
    let weights ← (v.items?.bind Value.toFloats).mapError .fault
    match ofList? weights with
    | some f => .ok f
    | none => .error (.fault (.fieldLength weights.length))

end Field

end Heptad
