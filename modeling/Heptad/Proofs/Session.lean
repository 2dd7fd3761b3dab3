import Heptad.Session

/-!
# How a call begins and ends

A call of an evaluator has one of three ends. Made while the guard is held it is
refused (`Shell.call_of_inFlight`). Made while the guard is free it begins with
the session `Shell.opening`, which remembers nothing of earlier calls; it then
fails if it was given something that cannot be gone through
(`Shell.call_of_not_iterable`), and is decided by the strategy otherwise
(`Shell.call_of_steps`). None of them changes whether the guard is held
(`Shell.inFlight_after_call`).

A call followed by another one ends as the first if this fails
(`Call.andThen_of_error`), and as the second on the state it left otherwise
(`Call.outcome_andThen_of_ok`, `Call.after_andThen_of_ok`).
-/

namespace Heptad

namespace Shell

variable {ε α : Type} {s : Shell ε} {derivation : Value}

/-- The session an admitted call begins with. -/
def opening (s : Shell ε) : Session ε := ⟨s.tracer.clear, 0, [], []⟩

theorem start_of_free (h : s.inFlight = false) : s.start = .ok s.opening := by
  rw [start, h]
  rfl

/-- A call with what cannot be gone through fails. -/
theorem call_of_not_iterable (h : s.inFlight = false) {f : Fault}
    (hi : derivation.items? = .error f)
    (strategy : List Value → Session ε → Except Failure α × Session ε) :
    s.call derivation strategy = ⟨.error (.fault f), [], s.opening.finish⟩ := by
  rw [call, start_of_free h, hi]
  rfl

/-- A call with steps is decided by the strategy. -/
theorem call_of_steps (h : s.inFlight = false) {steps : List Value}
    (hi : derivation.items? = .ok steps)
    (strategy : List Value → Session ε → Except Failure α × Session ε) :
    s.call derivation strategy =
      ⟨(strategy steps s.opening).1, (strategy steps s.opening).2.lines,
        (strategy steps s.opening).2.finish⟩ := by
  rw [call, start_of_free h, hi]

/-! ## The guard -/

/-- A call leaves the guard as it was, however it ends. -/
theorem inFlight_after_call (s : Shell ε) (derivation : Value)
    (strategy : List Value → Session ε → Except Failure α × Session ε) :
    (s.call derivation strategy).after.inFlight = s.inFlight := by
  cases h : s.inFlight with
  | true => rw [call_of_inFlight h, h]
  | false => exact inFlight_call h derivation strategy

/-- Giving the guard back leaves it free, also if nobody held it. -/
theorem inFlight_unlock (s : Shell ε) : s.unlock.after.inFlight = false := by
  cases h : s.inFlight with
  | true => rw [unlock, if_pos h]
  | false =>
    rw [unlock, if_neg (Bool.eq_false_iff.1 h)]
    exact h

/-- After a sequence of operations the guard is as the latest of them left it that did
    anything to it. -/
theorem inFlight_foldl {σ ω : Type} (shell : σ → Shell ε) (apply : σ → ω → σ)
    (guard : ω → Option Bool)
    (h : ∀ e op, (shell (apply e op)).inFlight = (guard op).getD (shell e).inFlight) (e : σ)
    (ops : List ω) :
    (shell (ops.foldl apply e)).inFlight =
      (ops.filterMap guard).getLast?.getD (shell e).inFlight := by
  induction ops generalizing e with
  | nil => rfl
  | cons op ops ih =>
    rw [List.foldl_cons, ih, h]
    cases hop : guard op with
    | none => rw [List.filterMap_cons_none hop, Option.getD_none]
    | some b =>
      rw [List.filterMap_cons_some hop, List.getLast?_cons, Option.getD_some, Option.getD_some]

end Shell

namespace Call

variable {σ α β : Type} {c : Call σ α}

/-- A call that fails is not followed by another. -/
theorem andThen_of_error {failure : Failure} (h : c.outcome = .error failure)
    (next : α → σ → Call σ β) : c.andThen next = ⟨.error failure, c.lines, c.after⟩ := by
  rw [andThen, h]

/-- A call that returns is followed by the other, on the state it left. -/
theorem outcome_andThen_of_ok {a : α} (h : c.outcome = .ok a) (next : α → σ → Call σ β) :
    (c.andThen next).outcome = (next a c.after).outcome := by
  rw [andThen, h]

theorem after_andThen_of_ok {a : α} (h : c.outcome = .ok a) (next : α → σ → Call σ β) :
    (c.andThen next).after = (next a c.after).after := by
  rw [andThen, h]

end Call

end Heptad
