import Heptad.Failure
import Heptad.Value.Compare

/-!
# Arithmetic of values

Differences and products. Two integers give an integer; as soon as one operand
is a floating-point number the other is rounded to one first. A sequence times
an integer, in either order, is the sequence repeated. A reentrant operand
decides its products itself, by calling back.
-/

namespace Heptad

-- Powers of naturals are those of the core library, whatever else is imported.
attribute [local instance (high)] instPowNat

namespace Number

/-- An operation on two numbers: on integers if both are, on floating-point
    numbers otherwise. -/
def combine (ints : Int → Int → Int) (floats : Binary64 → Binary64 → Binary64) :
    Number → Number → Except Fault Number
  | int a, int b => .ok (.int (ints a b))
  | a, b =>
    match a.toFloat?, b.toFloat? with
    | some x, some y => .ok (.float (floats x y))
    | _, _ => .error .intTooLarge

end Number

namespace Value

/-- A number as a value. -/
def ofNumber : Number → Value
  | .int i => int i
  | .float x => float x

/-- What an operand that calls back into the running evaluator is answered. -/
abbrev Callback := List Value → Except EvalError Value

/-- The difference of two numbers. -/
def sub? (a b : Value) : Except Fault Value :=
  match a.number?, b.number? with
  | some x, some y => (Number.combine (· - ·) Binary64.sub x y).map ofNumber
  | _, _ => .error (.unsupported "-" a.typeName b.typeName)

/-- The length of a sequence, the only values that can be repeated. -/
def sequenceLength? : Value → Option Nat
  | str s => some s.length
  | bytes b => some b.length
  | list items | tuple items => some items.length
  | _ => none

/-- The counts a sequence can be repeated by. -/
def isCount (i : Int) : Bool := -2 ^ (63 : Nat) ≤ i && i < 2 ^ (63 : Nat)

/-- The most items a sequence can be repeated to. -/
def longest : Nat := 2 ^ (63 : Nat) - 1

/-- The most items there is room for. It stands for the memory of a machine, which is not
    part of the calculus; here it holds eight tebibytes of items of eight bytes. -/
def capacity : Nat := 2 ^ (40 : Nat)

/-- A sequence put together from `n` copies. -/
def copies (n : Nat) : Value → Value
  | str s => str (String.join (List.replicate n s))
  | bytes b => bytes (List.replicate n b).flatten
  | list items => list (List.replicate n items).flatten
  | tuple items => tuple (List.replicate n items).flatten
  | v => v

/-- How a sequence whose repetition is longer than any sequence fails. -/
def tooLong : Value → Fault
  | str _ => .textTooLong
  | bytes _ => .bytesTooLong
  | _ => .outOfMemory

/-- A sequence of the given length repeated; negative counts give the empty one. -/
def repeated (v : Value) (length : Nat) (count : Int) : Except Fault Value :=
  if !isCount count then .error .countTooLarge
  else if length = 0 then .ok v
  else if longest < length * count.toNat then .error v.tooLong
  else if capacity < length * count.toNat then .error .outOfMemory
  else .ok (v.copies count.toNat)

/-- The product of two values of which neither is reentrant on the left. -/
def product? (a b : Value) : Except Fault Value :=
  match a.number?, b.number? with
  | some x, some y => (Number.combine (· * ·) Binary64.mul x y).map ofNumber
  | _, _ =>
    match a.sequenceLength?, b.sequenceLength? with
    | some n, _ =>
      match b.int? with
      | some count => a.repeated n count
      | none => .error (.repeatedBy b.typeName)
    | none, some n =>
      match a.int? with
      | some count => b.repeated n count
      | none => .error (.repeatedBy a.typeName)
    | none, none => .error (.unsupported "*" a.typeName b.typeName)

/-- The product of two values. -/
def mul? (callback : Callback) (a b : Value) : Except Failure Value :=
  match a with
  | reentrant steps => (callback steps).mapError .evaluation
  | _ => (a.product? b).mapError .fault

end Value

end Heptad
