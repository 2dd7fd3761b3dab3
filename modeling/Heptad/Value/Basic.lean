import Heptad.Binary64.Layout
import Heptad.Fault
import Heptad.Morphism
import Heptad.Number

/-!
# Values

A derivation works on values of any kind, and its steps are values themselves:
a morphism, a literal that holds a value to be pushed, or a sub-derivation. An
evaluator accepts whatever it is given and rejects what its own language does
not allow, so there is one type for all of them.

A *reentrant* operand is a value of the surroundings that, when something is
multiplied by it, calls back into the evaluator that is running.
-/

namespace Heptad

/-- A value. -/
inductive Value where
  | null
  | bool (b : Bool)
  | int (i : Int)
  | float (x : Binary64)
  | str (s : String)
  | bytes (bytes : List UInt8)
  | list (items : List Value)
  | tuple (items : List Value)
  /-- A mapping in the order its keys were put in. -/
  | mapping (entries : List (Value × Value))
  | morphism (m : Morphism)
  /-- A step that pushes a value. -/
  | literal (v : Value)
  /-- A nested derivation. -/
  | sub (steps : List Value)
  /-- The content of a table cell without a rule. -/
  | noRule
  /-- An operand that calls back with these steps. -/
  | reentrant (steps : List Value)

namespace Value

instance : Inhabited Value := ⟨null⟩

/-- The name of the type of a value. -/
def typeName : Value → String
  | null => "NoneType"
  | bool _ => "bool"
  | int _ => "int"
  | float _ => "float"
  | str _ => "str"
  | bytes _ => "bytes"
  | list _ => "list"
  | tuple _ => "tuple"
  | mapping _ => "dict"
  | morphism _ => "Morphism"
  | literal _ => "Literal"
  | sub _ => "SubDerivation"
  | noRule => "_NoRule"
  | reentrant _ => "Reenter"

/-- The integer a value counts as: truth values and morphisms are integers too. -/
def int? : Value → Option Int
  | bool b => some (if b then 1 else 0)
  | int i => some i
  | morphism m => some m.ordinal
  | _ => none

/-- The number a value counts as. -/
def number? : Value → Option Number
  | float x => some (.float x)
  | v => v.int?.map .int

/-- Whether a value counts as true: numbers unless zero, containers unless
    empty, everything else but the two empty marks. -/
def truthy : Value → Bool
  | null | noRule => false
  | bool b => b
  | int i => i ≠ 0
  | float x => !x.isZero
  | str s => !s.isEmpty
  | bytes b => !b.isEmpty
  | list items | tuple items => !items.isEmpty
  | mapping entries => !entries.isEmpty
  | morphism m => m ≠ .identity
  | literal _ | sub _ | reentrant _ => true

/-- What a value holds when it is gone through: items, keys, characters or
    bytes. -/
def items? : Value → Except Fault (List Value)
  | list items | tuple items => .ok items
  | mapping entries => .ok (entries.map Prod.fst)
  | str s => .ok (s.toList.map fun c => str (String.singleton c))
  | bytes b => .ok (b.map fun x => int x.toNat)
  | v => .error (.notIterable v.typeName)

/-- The length of a container. -/
def length? : Value → Except Fault Nat
  | list items | tuple items => .ok items.length
  | mapping entries => .ok entries.length
  | str s => .ok s.length
  | bytes b => .ok b.length
  | v => .error (.noLength v.typeName)

/-- The tuple of texts. -/
def texts (ss : List String) : Value := tuple (ss.map str)

end Value

end Heptad
