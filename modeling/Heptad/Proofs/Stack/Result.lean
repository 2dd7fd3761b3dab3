import Heptad.Proofs.Outcome
import Heptad.Primitive
import Heptad.Session

/-!
# What primitives result in

Within a call of an evaluator every operand that calls back is refused. So what
a primitive results in does not depend on who would answer: it is a truth value,
a difference or a product of its arguments (`call_eq_ok_iff`), and never a step
(`Results.isPlain`).
-/

namespace Heptad.Stack

/-- What the primitives result in, for as many arguments as they take. -/
inductive Results : Primitive → List Value → Value → Prop
  | isZero (v : Value) : Results .isZero [v] (.bool v.isZero)
  | subtract {a b v : Value} : a.sub? b = .ok v → Results .subtract [a, b] v
  | multiply {a b v : Value} : (∀ steps, a ≠ .reentrant steps) → a.product? b = .ok v →
      Results .multiply [a, b] v

/-- An operation has a result iff it is given as many arguments as it takes and
    results in it. -/
theorem call_operation_eq_ok_iff {op : Operation} {args : List Value} {v : Value} :
    op.call args = .ok v ↔ (args.length : Int) = op.arity ∧ op.run args = .ok v := by
  rw [Operation.call]
  split
  · rename_i h
    exact (and_iff_right h).symm
  · rename_i h
    exact ⟨nofun, fun hv => absurd hv.1 h⟩

/-- A product whose first factor calls back is refused. -/
theorem mul?_eq_ok_iff {ε : Type} {s : Session ε} {a b v : Value} :
    a.mul? s.callback b = .ok v ↔ (∀ steps, a ≠ .reentrant steps) ∧ a.product? b = .ok v := by
  cases a with
  | reentrant steps => exact ⟨nofun, fun h => absurd rfl (h.1 steps)⟩
  | null | bool | int | float | str | bytes | list | tuple | mapping | morphism | literal | sub
  | noRule => exact mapError_eq_ok.trans (and_iff_right nofun).symm

/-- Within a call the primitives result in this and nothing else. -/
theorem call_eq_ok_iff {ε : Type} {s : Session ε} {p : Primitive} {args : List Value}
    {v : Value} : p.call s.callback args = .ok v ↔ Results p args v := by
  rw [Primitive.call, call_operation_eq_ok_iff]
  show (args.length : Int) = p.arity ∧ p.run s.callback args = .ok v ↔ Results p args v
  constructor
  · rintro ⟨-, h⟩
    rw [Primitive.run.eq_def] at h
    split at h
    · cases h
      exact .isZero _
    · exact .subtract (mapError_eq_ok.1 h)
    · obtain ⟨ha, hv⟩ := mul?_eq_ok_iff.1 h
      exact .multiply ha hv
    · cases h
  · intro h
    cases h with
    | isZero v => exact ⟨rfl, rfl⟩
    | subtract h => exact ⟨rfl, mapError_eq_ok.2 h⟩
    | multiply ha h => exact ⟨rfl, mul?_eq_ok_iff.2 ⟨ha, h⟩⟩

/-! ## Plain results -/

/-- Numbers, truth values and sequences. -/
def isPlain : Value → Bool
  | .bool _ | .int _ | .float _ | .str _ | .bytes _ | .list _ | .tuple _ => true
  | _ => false

theorem isPlain_ofNumber (n : Number) : isPlain (.ofNumber n) = true := by
  cases n <;> rfl

theorem isPlain_copies {v : Value} (h : isPlain v = true) (n : Nat) :
    isPlain (v.copies n) = true := by
  cases v with
  | bool | int | float | str | bytes | list | tuple => rfl
  | null | mapping | morphism | literal | sub | noRule | reentrant => cases h

theorem isPlain_of_sequence {v : Value} {n : Nat} (h : v.sequenceLength? = some n) :
    isPlain v = true := by
  cases v with
  | str | bytes | list | tuple => rfl
  | null | bool | int | float | mapping | morphism | literal | sub | noRule | reentrant => cases h

theorem isPlain_combine {ints : Int → Int → Int} {floats : Binary64 → Binary64 → Binary64}
    {x y : Number} {v : Value} (h : (Number.combine ints floats x y).map .ofNumber = .ok v) :
    isPlain v = true := by
  obtain ⟨n, -, rfl⟩ := map_eq_ok.1 h
  exact isPlain_ofNumber n

theorem isPlain_repeated {v w : Value} {n length : Nat} {count : Int}
    (hv : v.sequenceLength? = some n) (h : v.repeated length count = .ok w) :
    isPlain w = true := by
  have hplain := isPlain_of_sequence hv
  rw [Value.repeated] at h
  split at h
  · cases h
  · split at h
    · cases h
      exact hplain
    · split at h
      · cases h
      · split at h
        · cases h
        · cases h
          exact isPlain_copies hplain _

theorem isPlain_product {a b v : Value} (h : a.product? b = .ok v) : isPlain v = true := by
  rw [Value.product?] at h
  split at h
  · exact isPlain_combine h
  · split at h
    · rename_i ha
      split at h
      · exact isPlain_repeated ha h
      · cases h
    · rename_i hb
      split at h
      · exact isPlain_repeated hb h
      · cases h
    · cases h

/-- Primitives result in numbers, truth values and sequences only. -/
theorem Results.isPlain {p : Primitive} {args : List Value} {v : Value} (h : Results p args v) :
    isPlain v = true := by
  cases h with
  | isZero => rfl
  | @subtract a b v h =>
    rw [Value.sub?] at h
    split at h
    · exact isPlain_combine h
    · cases h
  | multiply _ h => exact isPlain_product h

end Heptad.Stack
