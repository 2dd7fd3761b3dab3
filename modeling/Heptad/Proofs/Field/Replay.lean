import Heptad.Proofs.Field.Evaluation

/-!
# Replaying a field evaluator

An evaluator is used by any sequence of operations: calls, whether they return,
fail or are refused because somebody holds the guard, resets, and the guard
being taken and given back. Of all this only its *past* matters: whether it was
reset, and the steps of the derivations it accepted since, in order.

* `Tracks`: the state is that of one run of the past, from the seeds or, once
  there was a reset, from the initial state;
* `tracks_apply`, `tracks_run`: every operation keeps this, hence every
  sequence of them;
* `replay_past`: so one call of a new evaluator with the whole past, which
  returns, leads to the same field and history.
-/

namespace Heptad

namespace Field

namespace Evaluator

/-! ## Operations -/

/-- An operation on an evaluator. -/
inductive Operation where
  /-- A call with a value given as derivation. -/
  | evaluate (derivation : Value)
  | reset
  /-- The guard taken, if it is free. -/
  | lock
  /-- The guard given back, if it is held. -/
  | unlock

/-- The evaluator after an operation. -/
def Operation.apply (e : Evaluator) : Operation → Evaluator
  | evaluate derivation => (e.evaluate derivation).after
  | reset => e.reset
  | lock => e.lock.after
  | unlock => e.unlock.after

/-- The evaluator after a sequence of operations. -/
def runAll (e : Evaluator) (ops : List Operation) : Evaluator := ops.foldl Operation.apply e

/-- The steps of a derivation a call returned for; none if the call failed. -/
def acceptedSteps (e : Evaluator) (derivation : Value) : List Value :=
  match (e.evaluate derivation).outcome, derivation.items? with
  | .ok _, .ok steps => steps
  | _, _ => []

/-- What became of an evaluator that still matters. -/
structure Past where
  /-- Whether it was reset. -/
  wasReset : Bool
  /-- The steps accepted since the latest reset, in order. -/
  steps : List Value

namespace Past

/-- The past of an evaluator that nothing has happened to. -/
def empty : Past := ⟨false, []⟩

/-- The past with an operation added, which was carried out on `e`. -/
def add (e : Evaluator) (p : Past) : Operation → Past
  | .evaluate derivation => { p with steps := p.steps ++ e.acceptedSteps derivation }
  | .reset => ⟨true, []⟩
  | .lock | .unlock => p

/-- The past with a sequence of operations added, which began on `e`. -/
def addAll (e : Evaluator) (p : Past) : List Operation → Past
  | [] => p
  | op :: ops => addAll (op.apply e) (p.add e op) ops

/-- The seed an evaluator goes back to: the one it was made with, or none once
    it was reset. -/
def seed (p : Past) (v : Value) : Value := if p.wasReset then .null else v

/-- The state the steps of a past began in, for an evaluator made in state `s`. -/
def origin (p : Past) (s : State) : State := if p.wasReset then .initial else s

end Past

/-! ## One run -/

/-- An evaluator made in state `s` is where one run of its past leads. -/
def Tracks (s : State) (p : Past) (e : Evaluator) : Prop :=
  ∃ ms, acceptAll 1 p.steps = .ok ms ∧ e.state = (p.origin s).run e.table ms

variable {e : Evaluator} {p : Past} {s : State}

/-- A call adds the morphisms it accepts, and nothing if it fails. -/
theorem tracks_evaluate (h : Tracks s p e) (derivation : Value) :
    Tracks s (p.add e (.evaluate derivation)) (e.evaluate derivation).after := by
  obtain ⟨ms, hms, hs⟩ := h
  rw [Tracks, table_evaluate]
  cases ho : (e.evaluate derivation).outcome with
  | error failure =>
    -- Neither the state nor the past has changed.
    refine ⟨ms, ?_, (state_evaluate_of_error ho).trans hs⟩
    rw [Past.add, acceptedSteps, ho]
    exact (congrArg (acceptAll 1) (List.append_nil _)).trans hms
  | ok field =>
    obtain ⟨hf, steps, ns, hi, hns⟩ := accepted_of_evaluate_eq_ok ho
    refine ⟨ms ++ ns, ?_, ?_⟩
    · rw [Past.add, acceptedSteps, ho, hi]
      exact acceptAll_append hms hns
    · rw [(evaluate_of_accepted hf hi hns).2, hs]
      exact (State.run_append _ _ _ _).symm

/-- Every operation keeps an evaluator where one run of its past leads. -/
theorem tracks_apply (h : Tracks s p e) (op : Operation) : Tracks s (p.add e op) (op.apply e) := by
  cases op with
  | evaluate derivation => exact tracks_evaluate h derivation
  | reset => exact ⟨[], rfl, rfl⟩
  | lock => exact h
  | unlock =>
    have hs : e.unlock.after.state = e.state := rfl
    have ht : e.unlock.after.table = e.table := rfl
    rw [Tracks, Operation.apply, hs, ht]
    exact h

/-- Every sequence of operations leaves an evaluator where one run of its past leads. -/
theorem tracks_run (h : Tracks s p e) (ops : List Operation) :
    Tracks s (p.addAll e ops) (e.runAll ops) := by
  induction ops generalizing e p with
  | nil => exact h
  | cons op ops ih => exact ih (tracks_apply h op)

/-- The table is never touched. -/
theorem table_runAll (e : Evaluator) (ops : List Operation) : (e.runAll ops).table = e.table := by
  induction ops generalizing e with
  | nil => rfl
  | cons op ops ih =>
    refine (ih (op.apply e)).trans ?_
    cases op with
    | evaluate derivation => exact table_evaluate e derivation
    | reset | lock | unlock => rfl

/-! ## New evaluators -/

/-- What a new evaluator is made of. -/
theorem new_eq_ok {debug field history : Value} {choice : TableChoice}
    (h : new debug field history choice = .ok e) :
    ∃ f first second, Field.ofSeed field = .ok f ∧ historySeed history = .ok (first, second) ∧
      choice.table = .ok e.table ∧ e.state = ⟨f, first, second⟩ := by
  rw [new, bind_eq_ok] at h
  obtain ⟨table, ht, h⟩ := h
  obtain ⟨f, hf, h⟩ := bind_eq_ok.1 h
  obtain ⟨⟨first, second⟩, hh, h⟩ := bind_eq_ok.1 h
  obtain rfl := Except.ok.inj h
  exact ⟨f, first, second, hf, hh, mapError_eq_ok.1 ht, rfl⟩

/-- An evaluator can always be made anew with the seeds its past goes back to;
    it is free and in the state the past began in. -/
theorem exists_new {debug field history : Value} {choice : TableChoice}
    (h : new debug field history choice = .ok e) (p : Past) (debug' : Value) :
    ∃ fresh, new debug' (p.seed field) (p.seed history) choice = .ok fresh ∧
      fresh.shell.inFlight = false ∧ fresh.table = e.table ∧
      fresh.state = p.origin e.state := by
  obtain ⟨f, first, second, hf, hh, ht, hs⟩ := new_eq_ok h
  rw [Past.seed, Past.seed, Past.origin]
  cases p.wasReset with
  | true =>
    refine ⟨⟨.new name debug', e.table, .initial⟩, ?_, rfl, rfl, rfl⟩
    rw [new, ht]
    rfl
  | false =>
    refine ⟨⟨.new name debug', e.table, ⟨f, first, second⟩⟩, ?_, rfl, rfl, hs.symm⟩
    rw [new, ht]
    simp only [Bool.false_eq_true, if_false, hf, hh]
    rfl

/-- Whatever was done to an evaluator, its field and history are those of a new
    one, made with the same table and with the same seeds or, after a reset, none,
    that was called once with all steps accepted since the latest reset. That
    call returns, and two evaluators with the same past are in the same state. -/
theorem replay_past {debug field history : Value} {choice : TableChoice}
    (h : new debug field history choice = .ok e) (ops : List Operation) (debug' : Value) :
    ∃ fresh,
      new debug' ((Past.empty.addAll e ops).seed field) ((Past.empty.addAll e ops).seed history)
        choice = .ok fresh ∧
      (fresh.evaluate (.list (Past.empty.addAll e ops).steps)).outcome =
        .ok (e.runAll ops).state.field ∧
      (fresh.evaluate (.list (Past.empty.addAll e ops).steps)).after.state =
        (e.runAll ops).state ∧
      ∀ ops', Past.empty.addAll e ops' = Past.empty.addAll e ops →
        (e.runAll ops').state = (e.runAll ops).state := by
  have hstart : Tracks e.state Past.empty e := ⟨[], rfl, rfl⟩
  obtain ⟨ms, hms, hs⟩ := tracks_run hstart ops
  obtain ⟨fresh, hnew, hf, ht, hstate⟩ := exists_new h (Past.empty.addAll e ops) debug'
  have hitems : (Value.list (Past.empty.addAll e ops).steps).items? = .ok _ := rfl
  have hcall := evaluate_of_accepted hf hitems hms
  rw [hstate, ht, ← table_runAll e ops, ← hs] at hcall
  refine ⟨fresh, hnew, hcall.1, hcall.2, fun ops' hp => ?_⟩
  -- Another sequence with this past leads to the run of the same morphisms.
  obtain ⟨ms', hms', hs'⟩ := tracks_run hstart ops'
  rw [hp, hms, Except.ok.injEq] at hms'
  rw [hs, hs', hp, table_runAll, table_runAll, hms']

/-- A seeded evaluator takes up its seeds again: of a call that is accepted, one
    with a text, one refused by the guard and another that is accepted, the first
    and the last are replayed. -/
theorem replay_past_of_mixed_calls :
    ∃ e fresh,
      new .null (.mapping [(.morphism .neg, .float .one)]) (.list [.int 2, .morphism .apply])
        .standard = .ok e ∧
      new .null (.mapping [(.morphism .neg, .float .one)]) (.list [.int 2, .morphism .apply])
        .standard = .ok fresh ∧
      (fresh.evaluate (.list [.int 4, .morphism .conj, .int 0])).after.state =
        (e.runAll [.evaluate (.tuple [.int 4]), .evaluate (.list [.int 4, .str "@"]), .lock,
          .evaluate (.list [.int 1]), .unlock,
          .evaluate (.list [.morphism .conj, .int 0])]).state := by
  have h : new .null (.mapping [(.morphism .neg, .float .one)]) (.list [.int 2, .morphism .apply])
      .standard = .ok ⟨.new name .null, .standard3, ⟨zero.setWeight .neg .one, .lambda, .apply⟩⟩ :=
    rfl
  obtain ⟨fresh, hnew, -, hstate, -⟩ := replay_past h [.evaluate (.tuple [.int 4]),
    .evaluate (.list [.int 4, .str "@"]), .lock, .evaluate (.list [.int 1]), .unlock,
    .evaluate (.list [.morphism .conj, .int 0])] .null
  exact ⟨_, fresh, h, hnew, hstate⟩

end Evaluator

end Field

end Heptad
