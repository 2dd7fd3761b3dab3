import Heptad.Signature
import Heptad.Value.Arithmetic

/-!
# Primitives

The functions a derivation can apply by name. The table of primitives is fixed;
how many operands each one takes is read off its parameters. An operation is
only ever run on exactly as many arguments as it takes.
-/

namespace Heptad

/-- A named function with a fixed number of operands. -/
structure Operation where
  name : String
  arity : Int
  run : List Value → Except Failure Value

/-- An operation applied to arguments, which must be as many as it takes. -/
def Operation.call (op : Operation) (args : List Value) : Except Failure Value :=
  if (args.length : Int) = op.arity then op.run args
  else .error (.fault (.argumentCount op.name op.arity args.length))

/-- A primitive. -/
inductive Primitive where
  | isZero
  | subtract
  | multiply
  deriving DecidableEq

namespace Primitive

/-- The primitives in the order of their table. -/
def all : List Primitive := [isZero, subtract, multiply]

/-- The name a primitive is applied by. -/
def name : Primitive → String
  | isZero => "isZero"
  | subtract => "subtract"
  | multiply => "multiply"

/-- The parameters of a primitive. -/
def parameters : Primitive → List Parameter
  | isZero => [⟨.positional, false⟩]
  | subtract | multiply => [⟨.positional, false⟩, ⟨.positional, false⟩]

/-- How many operands a primitive takes. -/
def arity (p : Primitive) : Nat := declaredArity p.parameters

/-- The primitive of a name. -/
def ofName? (name : String) : Option Primitive := all.find? fun p => p.name = name

/-- The primitive a value names, if it is a text that names one. -/
def ofValue? : Value → Option Primitive
  | .str name => ofName? name
  | _ => none

/-- What a primitive does with its operands. -/
def run (callback : Value.Callback) : Primitive → List Value → Except Failure Value
  | isZero, [v] => .ok (.bool v.isZero)
  | subtract, [a, b] => (a.sub? b).mapError .fault
  | multiply, [a, b] => a.mul? callback b
  | p, args => .error (.fault (.argumentCount p.name p.arity args.length))

/-- A primitive as an operation, given the answer to operands that call back. -/
def operation (p : Primitive) (callback : Value.Callback) : Operation :=
  ⟨p.name, p.arity, p.run callback⟩

/-- A primitive applied to arguments. -/
def call (p : Primitive) (callback : Value.Callback) (args : List Value) :
    Except Failure Value :=
  (p.operation callback).call args

@[simp] theorem arity_isZero : isZero.arity = 1 := rfl
@[simp] theorem arity_subtract : subtract.arity = 2 := rfl
@[simp] theorem arity_multiply : multiply.arity = 2 := rfl

end Primitive

end Heptad
