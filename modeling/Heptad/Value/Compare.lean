import Heptad.Value.Basic

/-!
# Equality and order of values

`Value.eq` is the equality the calculus computes with: numbers of all kinds by
their exact values, containers of one kind by their content, mappings without
regard to order. It is not reflexive: not-a-number and reentrant operands equal
nothing. `Value.order` compares numbers, texts, byte strings, and sequences of
one kind at the first place where they differ; other values have no order.
-/

namespace Heptad

namespace Value

mutual

/-- Equality by content. -/
def eq : Value → Value → Bool
  | null, null => true
  | str s, str t => s = t
  | bytes b, bytes c => b = c
  | list vs, list ws => eqs vs ws
  | tuple vs, tuple ws => eqs vs ws
  | mapping es, mapping fs => es.length = fs.length && eqEntries es fs
  | literal v, literal w => v.eq w
  | sub vs, sub ws => eqs vs ws
  | noRule, noRule => true
  | v, w =>
    match v.number?, w.number? with
    | some a, some b => a.eq b
    | _, _ => false

/-- Equality place by place. -/
def eqs : List Value → List Value → Bool
  | [], [] => true
  | v :: vs, w :: ws => v.eq w && eqs vs ws
  | _, _ => false

/-- Whether each of the entries has an equal among the others. -/
def eqEntries : List (Value × Value) → List (Value × Value) → Bool
  | [], _ => true
  | (k, v) :: es, fs => fs.any (fun f => k.eq f.1 && v.eq f.2) && eqEntries es fs

end

/-- Whether a sought value should come before or after another. -/
inductive Direction where
  | less
  | greater
  deriving DecidableEq

/-- The sign of a comparison. -/
def Direction.sign : Direction → String
  | less => "<"
  | greater => ">"

/-- A comparison by a strict order. -/
def Direction.holds (d : Direction) (lt : α → α → Bool) (a b : α) : Bool :=
  match d with
  | less => lt a b
  | greater => lt b a

mutual

/-- Whether the first value is on the given side of the second. -/
def order (d : Direction) : Value → Value → Except Fault Bool
  | str s, str t => .ok (d.holds (fun s t => decide (s < t)) s t)
  | bytes b, bytes c => .ok (d.holds (fun b c => decide (b < c)) b c)
  | list vs, list ws => orders d vs ws
  | tuple vs, tuple ws => orders d vs ws
  | v, w =>
    match v.number?, w.number? with
    | some a, some b => .ok (d.holds Number.lt a b)
    | _, _ => .error (.notOrdered d.sign v.typeName w.typeName)

/-- The order of sequences: that of the values at the first place where they
    differ, or else that of their lengths. -/
def orders (d : Direction) : List Value → List Value → Except Fault Bool
  | [], [] => .ok false
  | [], _ :: _ => .ok (d = .less)
  | _ :: _, [] => .ok (d = .greater)
  | v :: vs, w :: ws => if v.eq w then orders d vs ws else order d v w

end

/-- Whether a value is less than another. -/
def lt? (v w : Value) : Except Fault Bool := order .less v w

/-- Whether a value is greater than another. -/
def gt? (v w : Value) : Except Fault Bool := order .greater v w

/-- Whether a value equals zero. -/
def isZero (v : Value) : Bool := v.eq (int 0)

end Value

end Heptad
