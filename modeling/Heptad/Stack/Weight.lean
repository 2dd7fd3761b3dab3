import Heptad.Primitive
import Heptad.Session

/-!
# Weights

How many steps can still be run because of a step, or because of a value on
the stack. A sub-derivation counts with all its steps wherever it can become a
branch: as a step, as the value of a literal, on the stack. Nothing else that
a primitive results in does.
-/

namespace Heptad.Stack

-- Sums of naturals are those of the core library, whatever else is imported.
attribute [local instance (high)] Zero.ofOfNat0

mutual

/-- The steps a step can cause to be run, itself included. -/
def stepWeight : Value → Nat
  | .literal v => 1 + pushWeight v
  | .sub steps => 1 + stepsWeight steps
  | _ => 1

/-- The steps a derivation can cause to be run. -/
def stepsWeight : List Value → Nat
  | [] => 0
  | v :: vs => stepWeight v + stepsWeight vs

/-- The steps a value on the stack can cause to be run. -/
def pushWeight : Value → Nat
  | .sub steps => stepsWeight steps
  | _ => 0

end

/-- The steps the values on a stack can cause to be run. -/
def stackWeight (stack : List Value) : Nat := (stack.map pushWeight).sum

theorem stepWeight_pos (v : Value) : 0 < stepWeight v := by
  cases v <;> simp only [stepWeight] <;> omega

/-! ## Stacks -/

theorem stackWeight_cons (v : Value) (stack : List Value) :
    stackWeight (v :: stack) = pushWeight v + stackWeight stack := by
  simp [stackWeight]

theorem stackWeight_drop_le (n : Nat) (stack : List Value) :
    stackWeight (stack.drop n) ≤ stackWeight stack := by
  induction stack generalizing n with
  | nil => simp
  | cons v stack ih =>
    cases n with
    | zero => simp
    | succ n =>
      have := ih n
      rw [List.drop_succ_cons, stackWeight_cons]
      omega

theorem pushWeight_le_stackWeight {v : Value} {stack : List Value} (h : v ∈ stack) :
    pushWeight v ≤ stackWeight stack := by
  induction stack with
  | nil => cases h
  | cons w stack ih =>
    rw [stackWeight_cons]
    rcases List.mem_cons.1 h with rfl | h
    · omega
    · have := ih h
      omega

/-! ## Results of primitives -/

theorem pushWeight_ofNumber (n : Number) : pushWeight (.ofNumber n) = 0 := by
  cases n <;> simp [Value.ofNumber, pushWeight]

theorem pushWeight_copies {v : Value} (hv : pushWeight v = 0) (n : Nat) :
    pushWeight (v.copies n) = 0 := by
  cases v <;> simp_all [Value.copies, pushWeight]

theorem pushWeight_of_sequence {v : Value} {n : Nat} (h : v.sequenceLength? = some n) :
    pushWeight v = 0 := by
  cases v <;> simp_all [Value.sequenceLength?, pushWeight]

theorem pushWeight_repeated {v w : Value} {n length : Nat} {count : Int}
    (hv : v.sequenceLength? = some n) (h : v.repeated length count = .ok w) :
    pushWeight w = 0 := by
  have hv := pushWeight_of_sequence hv
  unfold Value.repeated at h
  split at h
  · cases h
  split at h
  · cases h; exact hv
  split at h
  · cases h
  split at h
  · cases h
  · cases h; exact pushWeight_copies hv _

theorem pushWeight_combine {ints : Int → Int → Int} {floats : Binary64 → Binary64 → Binary64}
    {x y : Number} {v : Value} (h : (Number.combine ints floats x y).map .ofNumber = .ok v) :
    pushWeight v = 0 := by
  cases hc : Number.combine ints floats x y with
  | error f => simp [hc, Except.map] at h
  | ok n => simp [hc, Except.map] at h; exact h ▸ pushWeight_ofNumber n

theorem pushWeight_difference {a b v : Value} (h : a.sub? b = .ok v) : pushWeight v = 0 := by
  unfold Value.sub? at h
  split at h
  · exact pushWeight_combine h
  · cases h

theorem pushWeight_product {a b v : Value} (h : a.product? b = .ok v) : pushWeight v = 0 := by
  unfold Value.product? at h
  split at h
  · exact pushWeight_combine h
  · split at h
    · rename_i ha
      split at h
      · exact pushWeight_repeated ha h
      · cases h
    · rename_i hb
      split at h
      · exact pushWeight_repeated hb h
      · cases h
    · cases h

theorem ok_of_mapError {ε ε' : Type} {x : Except ε Value} {f : ε → ε'} {v : Value}
    (h : x.mapError f = .ok v) : x = .ok v := by
  cases x with
  | error e => cases h
  | ok w => exact congrArg Except.ok (Except.ok.inj h)

/-- A primitive never results in a sub-derivation, as no call from inside
    another one is answered with a value. -/
theorem pushWeight_of_call {ε : Type} {p : Primitive} {s : Session ε} {args : List Value}
    {v : Value} (h : p.call s.callback args = .ok v) : pushWeight v = 0 := by
  unfold Primitive.call Operation.call at h
  split at h
  · simp only [Primitive.operation] at h
    unfold Primitive.run at h
    split at h
    · cases h; rfl
    · exact pushWeight_difference (ok_of_mapError h)
    · unfold Value.mul? at h
      split at h
      · cases h
      · exact pushWeight_product (ok_of_mapError h)
    · cases h
  · cases h

end Heptad.Stack
