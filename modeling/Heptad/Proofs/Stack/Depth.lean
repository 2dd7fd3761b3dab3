import Heptad.Proofs.Number
import Heptad.Stack.Machine

/-!
# Nesting depths and limits

A derivation is entered at a depth unless this is beyond the limit. Limits are
values like any other; for those that are integers the comparison is that of
integers (`enter_int_eq_ok`), and under any number a derivation that is not entered
is nested too deep (`enter_eq_error`). Whatever the limit, no other reason is given for
not entering a derivation (`eq_tooDeep_of_enter`), and one that can be entered could be
entered less deep as well (`enter_of_le`).
-/

namespace Heptad.Stack

/-- Whether one integer is greater than another. -/
theorem gt?_int_int (i j : Int) : (Value.int i).gt? (.int j) = .ok (decide (j < i)) :=
  congrArg Except.ok (Number.lt_int_int j i)

/-- Under an integer limit the depths up to the limit can be entered. -/
theorem enter_int_eq_ok {limit : Int} {depth : Nat} :
    enter (.int limit) depth = .ok () ↔ (depth : Int) ≤ limit := by
  rw [enter, gt?_int_int]
  by_cases h : limit < depth
  · rw [decide_eq_true h]
    exact ⟨nofun, fun hle => absurd h (Int.not_lt.2 hle)⟩
  · rw [decide_eq_false h]
    exact ⟨fun _ => Int.not_lt.1 h, fun _ => rfl⟩

/-- Under an integer limit the depths beyond it cannot be entered. -/
theorem enter_int_eq_error {limit : Int} {depth : Nat} {failure : Failure}
    (h : enter (.int limit) depth = .error failure) :
    limit < depth ∧ failure = (EvalError.tooDeep depth (.int limit)).raised := by
  rw [enter, gt?_int_int] at h
  by_cases hlt : limit < depth
  · rw [decide_eq_true hlt] at h
    cases h
    exact ⟨hlt, rfl⟩
  · rw [decide_eq_false hlt] at h
    cases h

/-- An integer is greater than what counts as a number and lies below it. -/
theorem gt?_int (i : Int) (v : Value) :
    (Value.int i).gt? v =
      match v.number? with
      | some a => .ok (a.lt (.int i))
      | none =>
        .error (.notOrdered Value.Direction.greater.sign (Value.int i).typeName v.typeName) := by
  cases v <;> rfl

/-- Under a limit that is a number, what cannot be entered is nested too deep; others do
    not compare with depths. -/
theorem enter_eq_error {limit : Value} {depth : Nat} {failure : Failure}
    (h : enter limit depth = .error failure) :
    failure = (EvalError.tooDeep depth limit).raised ∨
      limit.number? = none ∧ ∃ f, failure = .fault f := by
  rw [enter, gt?_int] at h
  cases hnumber : limit.number? with
  | none =>
    rw [hnumber] at h
    cases h
    exact .inr ⟨rfl, _, rfl⟩
  | some a =>
    rw [hnumber] at h
    dsimp only at h
    cases hlt : a.lt (.int depth) with
    | true =>
      rw [hlt] at h
      cases h
      exact .inl rfl
    | false =>
      rw [hlt] at h
      cases h

/-- The only reason an evaluator has not to enter a derivation is its depth. -/
theorem eq_tooDeep_of_enter {limit : Value} {depth : Nat} {reason : EvalError}
    (h : enter limit depth = .error (.evaluation reason)) : reason = .tooDeep depth limit := by
  rcases enter_eq_error h with hraised | ⟨-, _, hfault⟩
  · exact (EvalError.eq_of_raised hraised.symm).symm
  · cases hfault

/-- Under any limit, what can be entered at a depth can be entered less deep. -/
theorem enter_of_le {limit : Value} {depth depth' : Nat} (hle : depth' ≤ depth)
    (h : enter limit depth = .ok ()) : enter limit depth' = .ok () := by
  rw [enter, gt?_int] at h ⊢
  cases hnumber : limit.number? with
  | none =>
    rw [hnumber] at h
    cases h
  | some a =>
    rw [hnumber] at h
    dsimp only at h ⊢
    cases hlt : a.lt (.int depth') with
    | false => rfl
    | true =>
      -- The limit lies below the lesser depth, so it lies below the greater one.
      have hbelow : a.lt (.int depth) = true := by
        rcases Nat.lt_or_eq_of_le hle with hdepth | rfl
        · refine Number.lt_trans hlt ?_
          rw [Number.lt_int_int]
          exact decide_eq_true (Int.ofNat_lt.2 hdepth)
        · exact hlt
      rw [hbelow] at h
      cases h

end Heptad.Stack
