import Heptad.Text.Decimal

/-!
# Faults

A fault is what goes wrong in an operation on values, whatever it is needed
for: the operands do not fit the operation, or the result does not fit any
value. `Fault.kind` sorts faults by what is at fault, `Fault.message` words
them.
-/

namespace Heptad

/-- What is at fault. -/
inductive FaultKind where
  /-- The type of an operand. -/
  | type
  /-- The content of an operand. -/
  | value
  /-- The size of a number. -/
  | overflow
  /-- The size of a result. -/
  | memory
  /-- A position that holds nothing. -/
  | index
  /-- The state of the surroundings. -/
  | runtime
  /-- An operation without a definition. -/
  | notImplemented
  deriving DecidableEq

/-- The ways an operation on values goes wrong. Types are given by name, values
    by their text. -/
inductive Fault where
  /-- A value that cannot be gone through. -/
  | notIterable (type : String)
  /-- A value that has no length. -/
  | noLength (type : String)
  /-- Two values without an order between them. -/
  | notOrdered (sign left right : String)
  /-- An operation that its operands do not support. -/
  | unsupported (sign left right : String)
  /-- A sequence repeated by something that is no integer. -/
  | repeatedBy (type : String)
  /-- A sequence repeated more often than can be counted. -/
  | countTooLarge
  /-- A text filled up to a width beyond what can be counted. -/
  | widthTooLarge
  /-- A text repeated beyond the longest. -/
  | textTooLong
  /-- A byte string repeated beyond the longest. -/
  | bytesTooLong
  /-- A result beyond what can be held. -/
  | outOfMemory
  /-- An integer beyond the floating-point numbers. -/
  | intTooLarge
  /-- A text that names no floating-point number. -/
  | badFloat (text : String)
  /-- A text that names no integer. -/
  | badInt (text : String)
  /-- An integer of more digits than are written. -/
  | tooManyDigits
  /-- A numeral of more digits than are read. -/
  | numeralTooLong (digits : Nat)
  /-- A value that is neither a text nor a real number. -/
  | notReal (type : String)
  /-- A value that is not an integer, where one is needed. -/
  | notInteger (type : String)
  /-- A value without a brief text. -/
  | noBrief (type : String)
  /-- A text where a number to be written briefly is needed. -/
  | briefText
  /-- A key that has no place in a text of the interchange format. -/
  | badKey (type : String)
  /-- A value that has no place in a text of the interchange format. -/
  | notSerializable (type : String)
  /-- A floating-point number that the interchange format does not have. -/
  | notFinite
  /-- A key of a literal mapping that is no text. -/
  | literalKey (text : String)
  /-- A literal value without a canonical form. -/
  | literalValue (text : String)
  /-- A value that is no step of a derivation. -/
  | notAStep (text : String)
  /-- A wrong number of arguments. -/
  | argumentCount (name : String) (arity given : Int)
  /-- Cells that do not form a table of the given shape. -/
  | tableShape (name shape : String)
  /-- A cell that is neither a morphism nor empty. -/
  | tableCell (text : String)
  /-- A key that is not one index for each side. -/
  | tableKey (name places : String)
  /-- A value that is no three-sided table. -/
  | notATable (type : String)
  /-- A field without exactly one weight for each morphism. -/
  | fieldLength (length : Nat)
  /-- A field in which no weight equals the greatest. -/
  | noMaximum
  /-- A history that is not of two morphisms. -/
  | historyLength (length : Nat)
  /-- A guard released without being held. -/
  | notHeld
  /-- Nothing left to hand out. -/
  | exhausted
  /-- An event handler that gave up. -/
  | handlerFailed
  /-- A clock that gave up. -/
  | clockFailed
  /-- An evaluator without a strategy. -/
  | noStrategy
  deriving DecidableEq

namespace Fault

/-- What is at fault. -/
def kind : Fault → FaultKind
  | countTooLarge | widthTooLarge | textTooLong | bytesTooLong | intTooLarge => .overflow
  | outOfMemory => .memory
  | badFloat _ | badInt _ | tooManyDigits | numeralTooLong _ | briefText | notFinite
  | tableShape .. | fieldLength _ | noMaximum | historyLength _ => .value
  | notHeld | handlerFailed | clockFailed => .runtime
  | exhausted => .index
  | noStrategy => .notImplemented
  | _ => .type

/-- The part of a shown text that a wording has room for: its first 200 characters. -/
def shortened (shown : String) : String := String.ofList (shown.toList.take 200)

/-- The wording of a limit on the digits of integers, and what is said of the one at fault. -/
def digitLimit (about : String) : String :=
  s!"Exceeds the limit ({maxDigits} digits) for integer string conversion{about}" ++
    "; use sys.set_int_max_str_digits() to increase the limit"

/-- The wording of a fault. -/
def message : Fault → String
  | notIterable t => s!"'{t}' object is not iterable"
  | noLength t => s!"object of type '{t}' has no len()"
  | notOrdered sign a b => s!"'{sign}' not supported between instances of '{a}' and '{b}'"
  | unsupported sign a b => s!"unsupported operand type(s) for {sign}: '{a}' and '{b}'"
  | repeatedBy t => s!"can't multiply sequence by non-int of type '{t}'"
  | countTooLarge => "cannot fit 'int' into an index-sized integer"
  | widthTooLarge => "Python int too large to convert to C ssize_t"
  | textTooLong => "repeated string is too long"
  | bytesTooLong => "repeated bytes are too long"
  | outOfMemory => ""
  | intTooLarge => "int too large to convert to float"
  | badFloat s => s!"could not convert string to float: {s}"
  | badInt s => s!"invalid literal for int() with base 10: {shortened s}"
  | tooManyDigits => digitLimit ""
  | numeralTooLong n => digitLimit s!": value has {n} digits"
  | notReal t => s!"float() argument must be a string or a real number, not '{t}'"
  | notInteger t => s!"'{t}' object cannot be interpreted as an integer"
  | noBrief t => s!"unsupported format string passed to {t}.__format__"
  | briefText => "Unknown format code 'g' for object of type 'str'"
  | badKey t => s!"keys must be str, int, float, bool or None, not {t}"
  | notSerializable t => s!"Object of type {t} is not JSON serializable"
  | notFinite => "Out of range float values are not JSON compliant"
  | literalKey s => s!"Literal dict keys must be strings, got {s}"
  | literalValue s => s!"Literal value is not hashable as canonical JSON: {s}"
  | notAStep s => s!"Not a derivation step: {s}"
  | argumentCount name arity given => s!"Primitive '{name}' takes {arity} argument(s), got {given}"
  | tableShape name shape => s!"{name} must be {shape}"
  | tableCell s => s!"Tensor cell must be a Morphism or NO_RULE, got {s}"
  | tableKey name places => s!"{name} is indexed as T[{places}]"
  | notATable t => s!"tensor must be a Tensor3D, got {t}"
  | fieldLength n => s!"Field must have 7 entries, got {n}"
  | noMaximum => "Field has no comparable maximum (NaN weights?)"
  | historyLength n => s!"History must hold exactly 2 morphisms, got {n}"
  | notHeld => "release unlocked lock"
  | exhausted => "pop from empty list"
  | handlerFailed => "handler failed"
  | clockFailed => "clock unavailable"
  | noStrategy => ""

end Fault

end Heptad
