/-!
# Results of computations that can fail

What a computation put together from parts results in, read off its parts: if
the whole has a value then so has each part, and a failure whose reason was
only reworded was a failure before. The failure of the whole is that of the
first part that fails (`failure?_both`). What a computation yields (`Yields`), a
value with a property or, if that is allowed, a failure, is put together from what
its parts yield.
-/

namespace Heptad

variable {ε ε' α β γ : Type}

/-- A computation followed by another has a value iff both have. -/
theorem bind_eq_ok {x : Except ε α} {f : α → Except ε β} {b : β} :
    (x >>= f) = .ok b ↔ ∃ a, x = .ok a ∧ f a = .ok b := by
  cases x with
  | error e => exact ⟨nofun, fun ⟨_, h, _⟩ => nomatch h⟩
  | ok a => exact ⟨fun h => ⟨a, rfl, h⟩, fun ⟨_, h, hf⟩ => Except.ok.inj h ▸ hf⟩

/-- A value computed from the value of a computation. -/
theorem map_eq_ok {x : Except ε α} {f : α → β} {b : β} :
    x.map f = .ok b ↔ ∃ a, x = .ok a ∧ f a = b := by
  cases x with
  | error e => exact ⟨nofun, fun ⟨_, h, _⟩ => nomatch h⟩
  | ok a => exact ⟨fun h => ⟨a, rfl, Except.ok.inj h⟩,
      fun ⟨_, h, hf⟩ => congrArg Except.ok (Except.ok.inj h ▸ hf)⟩

theorem mapError_ok (f : ε → ε') (a : α) : (Except.ok a).mapError f = .ok a := rfl

/-- Rewording the reason of a failure leaves values alone. -/
theorem mapError_eq_ok {x : Except ε α} {f : ε → ε'} {a : α} :
    x.mapError f = .ok a ↔ x = .ok a := by
  cases x with
  | error e => exact ⟨nofun, nofun⟩
  | ok b => exact ⟨fun h => congrArg Except.ok (Except.ok.inj h),
      fun h => congrArg Except.ok (Except.ok.inj h)⟩

/-! ## Values with a property -/

/-- A computation has a value with a property, or else fails and is allowed to. -/
def Yields (mayFail : Prop) (P : α → Prop) : Except ε α → Prop
  | .ok a => P a
  | .error _ => mayFail

/-- A computation that may not fail has a value. -/
theorem yields_false_iff {P : α → Prop} {x : Except ε α} :
    Yields False P x ↔ ∃ a, x = .ok a ∧ P a := by
  cases x with
  | error e => exact ⟨nofun, fun ⟨_, h, _⟩ => nomatch h⟩
  | ok a => exact ⟨fun h => ⟨a, rfl, h⟩, fun ⟨_, h, ha⟩ => Except.ok.inj h ▸ ha⟩

namespace Yields

variable {mayFail : Prop} {P Q : α → Prop} {x : Except ε α} {a : α}

theorem of_ok (h : Yields mayFail P x) (hx : x = .ok a) : P a := by
  subst hx
  exact h

/-- Nothing is said of a computation that may fail. -/
theorem trivial (x : Except ε α) : Yields True (fun _ => True) x := by
  cases x <;> exact True.intro

/-- A computation that may fail yields its own value. -/
theorem self (x : Except ε α) : Yields True (fun a => x = .ok a) x := by
  cases x with
  | error e => exact True.intro
  | ok a => rfl

theorem mono (h : Yields mayFail P x) (himp : ∀ a, P a → Q a) : Yields mayFail Q x := by
  cases x with
  | error e => exact h
  | ok a => exact himp a h

/-- What a value has in any case, it has also where a computation may not fail. -/
theorem and (h : Yields mayFail P x) (h' : Yields True Q x) :
    Yields mayFail (fun a => P a ∧ Q a) x := by
  cases x with
  | error e => exact h
  | ok a => exact ⟨h, h'⟩

/-- What follows a computation can rely on what it yields. -/
theorem bind {R : β → Prop} {f : α → Except ε β} (h : Yields mayFail P x)
    (hf : ∀ a, P a → Yields mayFail R (f a)) : Yields mayFail R (x >>= f) := by
  cases x with
  | error e => exact h
  | ok a => exact hf a h

theorem map {R : β → Prop} {f : α → β} (h : Yields mayFail P x) (hf : ∀ a, P a → R (f a)) :
    Yields mayFail R (x.map f) := by
  cases x with
  | error e => exact h
  | ok a => exact hf a h

end Yields

/-! ## Failures -/

/-- The failure a computation ends with, if it does. -/
def failure? : Except ε α → Option ε
  | .error e => some e
  | .ok _ => none

/-- Of two computations whose values are put together, the failure of the first counts,
    and that of the second only without it. -/
theorem failure?_both (x : Except ε α) (y : Except ε β) (f : α → β → γ) :
    failure? (x >>= fun a => y >>= fun b => pure (f a b)) = (failure? x).or (failure? y) := by
  cases x <;> cases y <;> rfl

theorem failure?_map (x : Except ε α) (f : α → β) : failure? (x.map f) = failure? x := by
  cases x <;> rfl

theorem failure?_bind_pure (x : Except ε α) (f : α → β) :
    failure? (x >>= fun a => pure (f a)) = failure? x := by
  cases x <;> rfl

theorem failure?_mapError (x : Except ε α) (f : ε → ε') :
    failure? (x.mapError f) = (failure? x).map f := by
  cases x <;> rfl

theorem failure?_eq_some {x : Except ε α} {e : ε} : failure? x = some e ↔ x = .error e := by
  cases x with
  | error e' => exact ⟨fun h => congrArg Except.error (Option.some.inj h),
      fun h => congrArg some (Except.error.inj h)⟩
  | ok a => exact ⟨nofun, nofun⟩

theorem failure?_eq_none {x : Except ε α} : failure? x = none ↔ ∃ a, x = .ok a := by
  cases x with
  | error e => exact ⟨nofun, nofun⟩
  | ok a => exact ⟨fun _ => ⟨a, rfl⟩, fun _ => rfl⟩

end Heptad
