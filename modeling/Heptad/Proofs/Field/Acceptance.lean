import Heptad.Proofs.Derivation.Refusal
import Heptad.Proofs.Field.Debug

/-!
# All or nothing

A call of the field evaluator is decided before anything is run. It returns iff each
step is a morphism or one of the integers from zero to six, and has then run all of
them; otherwise the first step that is neither is the reason for which it fails, and
nothing has happened.

* `IsAddress`: what a step has to be;
* `refusal`: the reason for which anything else is refused;
* `acceptAll_of_first`: of several steps the first one that is wrong decides;
* `executed_foldl`: a run counts and records each of its morphisms;
* `Evaluator.evaluate_all_or_nothing`: hence how a call ends.
-/

namespace Heptad

namespace Field

/-! ## Steps -/

/-- A morphism, or an integer from zero to six. -/
def IsAddress : Value → Prop
  | .morphism _ => True
  | .int i => 0 ≤ i ∧ i ≤ 6
  | _ => False

instance : DecidablePred IsAddress
  | .morphism _ => inferInstanceAs (Decidable True)
  | .int i => inferInstanceAs (Decidable (0 ≤ i ∧ i ≤ 6))
  | .null | .bool _ | .float _ | .str _ | .bytes _ | .list _ | .tuple _ | .mapping _ | .literal _
  | .sub _ | .noRule | .reentrant _ => inferInstanceAs (Decidable False)

/-- The reason for which a step that is neither is refused, in its place. -/
def refusal (index : Nat) : Value → EvalError
  | .int i => .outsideBasis i
  | v => .notAMorphism index v

/-- The kind of that reason. -/
def refusalKind : Value → ErrorKind
  | .int _ => .basisIndex
  | _ => .invalidStep

theorem kind_refusal (index : Nat) (v : Value) : (refusal index v).kind = refusalKind v := by
  cases v <;> rfl

/-- The reason shows the step. -/
theorem isShowable_refusal (index : Nat) (v : Value) :
    (refusal index v).isShowable = v.isShowable := by
  cases v <;> rfl

theorem isAddress_of_accept {v : Value} {m : Morphism} {index : Nat}
    (h : accept index v = .ok m) : IsAddress v := by
  cases accept_eq_ok_iff.1 h with
  | morphism => exact trivial
  | ordinal =>
    have hlt : m.ordinal < 7 := m.ordinal_lt
    exact ⟨Int.natCast_nonneg _, Int.ofNat_le.2 (Nat.le_of_lt_succ hlt)⟩

theorem exists_accept {v : Value} (h : IsAddress v) (index : Nat) :
    ∃ m, accept index v = .ok m := by
  cases v with
  | morphism m => exact ⟨m, rfl⟩
  | int i =>
    obtain ⟨m, hm⟩ := Morphism.exists_ofInt? h
    refine ⟨m, ?_⟩
    rw [accept, Value.toMorphism?, hm]
  | null | bool | float | str | bytes | list | tuple | mapping | literal | sub | noRule
  | reentrant => cases h

theorem accept_of_not_isAddress {v : Value} (h : ¬ IsAddress v) (index : Nat) :
    accept index v = .error (refusal index v) := by
  cases v with
  | morphism m => exact absurd trivial h
  | int i =>
    rw [accept, Value.toMorphism?, Morphism.ofInt?_of_outside h]
    rfl
  | null | bool | float | str | bytes | list | tuple | mapping | literal | sub | noRule
  | reentrant => rfl

theorem isAddress_of_acceptAll {vs : List Value} {ms : List Morphism} {index : Nat}
    (h : acceptAll index vs = .ok ms) : ∀ v ∈ vs, IsAddress v := by
  induction vs generalizing index ms with
  | nil => exact nofun
  | cons v vs ih =>
    obtain ⟨m, ms', hm, hms, -⟩ := acceptAll_cons.1 h
    exact List.forall_mem_cons.2 ⟨isAddress_of_accept hm, ih hms⟩

/-- Steps are accepted if each one is a morphism or one of the integers. -/
theorem exists_acceptAll {vs : List Value} (h : ∀ v ∈ vs, IsAddress v) (index : Nat) :
    ∃ ms, acceptAll index vs = .ok ms := by
  induction vs generalizing index with
  | nil => exact ⟨[], rfl⟩
  | cons v vs ih =>
    obtain ⟨hv, hvs⟩ := List.forall_mem_cons.1 h
    obtain ⟨m, hm⟩ := exists_accept hv index
    obtain ⟨ms, hms⟩ := ih hvs (index + 1)
    exact ⟨m :: ms, acceptAll_cons.2 ⟨m, ms, hm, hms, rfl⟩⟩

/-- Steps of which some name no morphism are refused for the first one that does not. -/
theorem acceptAll_of_first {before : List Value} {v : Value} (hbefore : ∀ w ∈ before, IsAddress w)
    (hv : ¬ IsAddress v) (after : List Value) (index : Nat) :
    acceptAll index (before ++ v :: after) = .error (refusal (index + before.length) v) := by
  induction before generalizing index with
  | nil =>
    rw [List.nil_append, acceptAll, accept_of_not_isAddress hv]
    rfl
  | cons w ws ih =>
    obtain ⟨hw, hws⟩ := List.forall_mem_cons.1 hbefore
    obtain ⟨m, hm⟩ := exists_accept hw index
    rw [List.cons_append, acceptAll, hm, ih hws, List.length_cons, Nat.add_right_comm]
    rfl

/-! ## Runs -/

/-- What a run has counted and recorded of its morphisms. -/
structure Executed (s s' : Session Event) (ms : List Morphism) : Prop where
  steps : s'.steps = s.steps + ms.length
  incoming : s'.tracer.events.map Event.incoming = s.tracer.events.map Event.incoming ++ ms

theorem executed_transition (t : Table3) (state : State) (s : Session Event) (m : Morphism) :
    Executed s (transition t (state, s) m).2 [m] :=
  ⟨rfl, List.map_append⟩

theorem Executed.trans {s s' s'' : Session Event} {ms ns : List Morphism} (h : Executed s s' ms)
    (h' : Executed s' s'' ns) : Executed s s'' (ms ++ ns) where
  steps := by rw [h'.steps, h.steps, List.length_append, Nat.add_assoc]
  incoming := by rw [h'.incoming, h.incoming, List.append_assoc]

/-- A run counts and records each of its morphisms. -/
theorem executed_foldl (t : Table3) (state : State) (s : Session Event) (ms : List Morphism) :
    Executed s (ms.foldl (transition t) (state, s)).2 ms := by
  induction ms generalizing state s with
  | nil => exact ⟨rfl, (List.append_nil _).symm⟩
  | cons m ms ih => exact (executed_transition t state s m).trans (ih (state.step t m) _)

/-! ## Calls -/

namespace Evaluator

variable {e : Evaluator} {derivation : Value} {steps : List Value}

/-- A call that is accepted has counted and recorded all of its steps. -/
theorem executed_of_accepted {ms : List Morphism} (hf : e.shell.inFlight = false)
    (hi : derivation.items? = .ok steps) (ha : acceptAll 1 steps = .ok ms) :
    (e.evaluate derivation).after.shell.steps = ms.length ∧
      (e.evaluate derivation).after.shell.tracer.events.map Event.incoming = ms := by
  have hrun := executed_foldl e.table e.state (opened e.shell.opening e.state ms.length) ms
  rw [(e.evaluate_of_call derivation).2, Shell.call_of_steps hf hi, strategy, ha]
  exact ⟨hrun.steps.trans (Nat.zero_add _), hrun.incoming⟩

/-- A call that is refused for a step leaves nothing behind, not even of earlier calls. -/
theorem evaluate_of_refused {reason : EvalError} (hf : e.shell.inFlight = false)
    (hi : derivation.items? = .ok steps) (ha : acceptAll 1 steps = .error reason) :
    e.evaluate derivation =
      ⟨.error reason.raised, [], { e with shell := e.shell.opening.finish }⟩ := by
  rw [evaluate, Shell.call_of_steps hf hi, strategy, ha]
  rfl

/-- How a call ends that is made while the guard is free. It returns iff each step is a
    morphism or an integer from zero to six, and it has then gone through all of them,
    one after the other. Otherwise the first step that is neither is to blame: an
    integer for being none of the ordinals, anything else, in its place counted from
    one, for being no morphism. Then field and history are as before, and no step is
    counted, no warning and no transition kept. A step without a text cannot even be
    blamed: then putting the reason into words is what fails. -/
theorem evaluate_all_or_nothing (hf : e.shell.inFlight = false)
    (hi : derivation.items? = .ok steps) :
    ((∃ field, (e.evaluate derivation).outcome = .ok field) ↔ ∀ v ∈ steps, IsAddress v) ∧
    ((∀ v ∈ steps, IsAddress v) →
      ∃ ms, List.Forall₂ Names steps ms ∧
        (e.evaluate derivation).outcome = .ok (e.state.run e.table ms).field ∧
        (e.evaluate derivation).after.state = e.state.run e.table ms ∧
        (e.evaluate derivation).after.shell.steps = steps.length ∧
        (e.evaluate derivation).after.shell.tracer.events.map Event.incoming = ms) ∧
    ∀ before v after, steps = before ++ v :: after → (∀ w ∈ before, IsAddress w) →
      ¬ IsAddress v →
      (e.evaluate derivation).outcome =
        .error (if v.isShowable then .evaluation (refusal (before.length + 1) v)
          else .fault .tooManyDigits) ∧
      (refusal (before.length + 1) v).kind = refusalKind v ∧
      (e.evaluate derivation).after.state = e.state ∧
      (e.evaluate derivation).after.shell.steps = 0 ∧
      (e.evaluate derivation).after.shell.warnings = [] ∧
      (e.evaluate derivation).after.shell.tracer.events = [] := by
  refine ⟨⟨?_, ?_⟩, ?_, ?_⟩
  · rintro ⟨field, h⟩
    obtain ⟨-, steps', ms, hi', ha⟩ := accepted_of_evaluate_eq_ok h
    obtain rfl := Except.ok.inj (hi.symm.trans hi')
    exact isAddress_of_acceptAll ha
  · intro h
    obtain ⟨ms, ha⟩ := exists_acceptAll h 1
    exact ⟨_, (evaluate_of_accepted hf hi ha).1⟩
  · intro h
    obtain ⟨ms, ha⟩ := exists_acceptAll h 1
    obtain ⟨houtcome, hafter⟩ := evaluate_of_accepted hf hi ha
    have hnames := acceptAll_eq_ok_iff.1 ha
    have hexecuted := executed_of_accepted hf hi ha
    refine ⟨ms, hnames, houtcome, hafter, ?_, hexecuted.2⟩
    rw [hexecuted.1, hnames.length_eq]
  · rintro before v after rfl hbefore hv
    have ha := acceptAll_of_first hbefore hv after 1
    rw [Nat.add_comm] at ha
    rw [evaluate_of_refused hf hi ha]
    refine ⟨?_, kind_refusal _ v, rfl, rfl, rfl, rfl⟩
    rw [EvalError.raised, isShowable_refusal]

/-- After a call that was accepted, one is refused for a truth value in the third place,
    before the integer behind it is looked at; with this one there is another reason. -/
theorem evaluate_all_or_nothing_of_bool :
    ∃ e, e = ((standard .null).evaluate (.tuple [.int 3, .morphism .identity])).after ∧
      (∃ field, (e.evaluate (.list [.morphism .conj, .int 6])).outcome = .ok field) ∧
      (e.evaluate (.list [.int 0, .morphism .conj, .bool true, .int 7])).outcome =
        .error (.evaluation (.notAMorphism 3 (.bool true))) ∧
      (e.evaluate (.list [.int 0, .int 7, .bool true])).outcome =
        .error (.evaluation (.outsideBasis 7)) ∧
      (e.evaluate (.list [.int 0, .int 7, .bool true])).after.state = e.state := by
  refine ⟨_, rfl, ?_, ?_, ?_, ?_⟩
  · exact (evaluate_all_or_nothing rfl rfl).1.2 (by decide)
  · exact ((evaluate_all_or_nothing rfl rfl).2.2 [.int 0, .morphism .conj] (.bool true) [.int 7]
      rfl (by decide) (by decide)).1
  · exact ((evaluate_all_or_nothing rfl rfl).2.2 [.int 0] (.int 7) [.bool true]
      rfl (by decide) (by decide)).1
  · exact ((evaluate_all_or_nothing rfl rfl).2.2 [.int 0] (.int 7) [.bool true]
      rfl (by decide) (by decide)).2.2.1

/-- An integer with too many digits is refused, but for none of the reasons there are to
    refuse an integer. -/
theorem evaluate_of_huge :
    ¬ IsAddress .huge ∧
      ((standard .null).evaluate (.list [.huge])).outcome = .error (.fault .tooManyDigits) ∧
      ∀ e : EvalError, ((standard .null).evaluate (.list [.huge])).outcome ≠
        .error (.evaluation e) := by
  have haddress : ¬ IsAddress .huge := by
    rintro ⟨-, hle⟩
    have habs : ((10 ^ maxDigits : Nat) : Int).natAbs ≤ (6 : Int).natAbs := Int.ofNat_le.1 hle
    exact Bool.eq_false_iff.1 Value.isShowable_huge (hasDecimal_of_natAbs_le habs rfl)
  have houtcome : ((standard .null).evaluate (.list [.huge])).outcome =
      .error (.fault .tooManyDigits) := by
    have ha : acceptAll 1 [.huge] = .error (refusal 1 .huge) :=
      acceptAll_of_first (List.forall_mem_nil _) haddress [] 1
    rw [evaluate_of_refused rfl rfl ha]
    exact congrArg Except.error (EvalError.raised_of_not_showable Value.isShowable_huge)
  refine ⟨haddress, houtcome, fun e => ?_⟩
  rw [houtcome]
  exact nofun

end Evaluator

end Field

end Heptad
