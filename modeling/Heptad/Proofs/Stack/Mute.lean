import Heptad.Proofs.Session
import Heptad.Proofs.Stack.Transition
import Heptad.Proofs.Value.Mute

/-!
# Runs do not look at what operands carry

Whatever the reentrant operands of a derivation carry, its run is the same: every
transition of the machine is one as well once what is carried has been left out, so
runs end alike. What they record differs in what is carried at most, and what they
write does not differ at all.

* `Config.Transition.mute`: a transition with what is carried left out;
* `run_mute`: hence a run;
* `Evaluator.evaluate_mute`: hence a call;
* `Evaluator.evaluate_of_mute_eq`: so calls with derivations that only differ in
  what is carried end alike.
-/

namespace Heptad

open Value (muteAll muteAll_eq_map length_muteAll drop_muteAll getLast?_muteAll areShowable_muteAll)

/-! ## Failures -/

/-- A reason with what the operands it names carry left out. -/
def EvalError.mute : EvalError → EvalError
  | notAPrimitive top => notAPrimitive top.mute
  | notAStep index step => notAStep index step.mute
  | primitiveFailed primitive args cause => primitiveFailed primitive (muteAll args) cause
  | e => e

/-- A failure with what the operands it names carry left out. -/
def Failure.mute : Failure → Failure
  | evaluation e => evaluation e.mute
  | fault f => fault f

theorem EvalError.code_mute (e : EvalError) : e.mute.code = e.code := by
  cases e <;> rfl

theorem EvalError.detail_mute (e : EvalError) : e.mute.detail = e.detail := by
  cases e with
  | notAPrimitive top =>
    exact congrArg (fun shown =>
      s!"Expected a primitive function identifier on the stack for Apply, but got {shown}")
      top.repr_mute
  | notAStep index step =>
    exact congrArg (fun shown =>
      s!"Step {index} is not a Morphism, Literal or SubDerivation: {shown}") step.repr_mute
  | primitiveFailed primitive args cause =>
    exact congrArg (fun shown => s!"Primitive '{primitive}' failed on {shown}: {cause.message}")
      (Value.list args).repr_mute
  | emptyStack | missingOperands | noPrimitive | condOperands | notAMorphism | tooDeep | notAnIndex
  | outsideBasis | noResult | inFlight => rfl

theorem EvalError.isShowable_mute (e : EvalError) : e.mute.isShowable = e.isShowable := by
  cases e with
  | notAPrimitive v | notAStep _ v => exact v.isShowable_mute
  | primitiveFailed _ args => exact areShowable_muteAll args
  | emptyStack | missingOperands | noPrimitive | condOperands | notAMorphism | tooDeep | notAnIndex
  | outsideBasis | noResult | inFlight => rfl

/-- What an evaluation ends with for a reason, with what is carried left out. -/
theorem EvalError.mute_raised (e : EvalError) : e.raised.mute = e.mute.raised := by
  rw [raised, raised, isShowable_mute]
  split <;> rfl

/-- What is carried does not show in the wording of a failure. -/
theorem Failure.message_mute (f : Failure) : f.mute.message = f.message := by
  cases f with
  | fault => rfl
  | evaluation e =>
    show coded e.mute.code e.mute.detail = coded e.code e.detail
    rw [e.code_mute, e.detail_mute]

/-- An outcome with what its operands carry left out. -/
def muteOutcome : Except Failure Value → Except Failure Value
  | .ok v => .ok v.mute
  | .error f => .error f.mute

/-! ## Records -/

/-- A record with what its operands carry left out. -/
def Record.mute (r : Record) : Record :=
  { r with detail := r.detail.map fun d => (d.1, d.2.mute) }

theorem Record.describe_mute (r : Record) : r.mute.describe = r.describe := by
  have hfacts : (r.mute.detail.map fun d => s!"{d.1}={d.2.repr}") =
      r.detail.map fun d => s!"{d.1}={d.2.repr}" := by
    rw [mute, List.map_map]
    exact List.map_congr_left fun d _ => congrArg (fun shown => s!"{d.1}={shown}") d.2.repr_mute
  simp only [describe, hfacts]
  rfl

namespace Stack

/-- An action with what its operands carry left out. -/
def Action.mute : Action → Action
  | pushed v depth => pushed v.mute depth
  | applied primitive args result implicit depth =>
    applied primitive (muteAll args) result.mute implicit depth
  | decided condition nested result depth => decided condition nested result.mute depth
  | action => action

/-- An event with what its operands carry left out. -/
def Event.mute (e : Event) : Event := ⟨e.step, e.action.mute⟩

theorem Event.toRecord_mute (e : Event) : e.mute.toRecord = e.toRecord.mute := by
  obtain ⟨step, action⟩ := e
  cases action with
  | pushed | passed | passedSub | applied | decided | warned => rfl

theorem describe_mute (e : Event) : describe e.mute = describe e := by
  show e.mute.toRecord.describe = e.toRecord.describe
  rw [e.toRecord_mute, Record.describe_mute]

theorem Action.isShowable_mute (a : Action) : a.mute.isShowable = a.isShowable := by
  cases a with
  | pushed v | decided _ _ v => exact v.isShowable_mute
  | applied _ args result =>
    show (Value.areShowable (muteAll args) && result.mute.isShowable) = _
    rw [areShowable_muteAll, result.isShowable_mute]
    rfl
  | passed | passedSub | warned => rfl

/-- A tracer with what the operands on record carry left out. -/
def muteTracer (t : Tracer Event) : Tracer Event := { t with events := t.events.map Event.mute }

/-- A session with what the operands on record carry left out. -/
def muteSession (s : Session Event) : Session Event := { s with tracer := muteTracer s.tracer }

variable (s : Session Event)

theorem muteSession_record (e : Event) :
    muteSession (s.record e) = (muteSession s).record e.mute := by
  have hevents : (s.tracer.events ++ [e]).map Event.mute =
      s.tracer.events.map Event.mute ++ [e.mute] := List.map_append
  have hlines : (muteTracer s.tracer).eventLines e.mute = s.tracer.eventLines e := by
    have hshown : Recorded.isShowable e.mute = Recorded.isShowable e := e.action.isShowable_mute
    rw [Tracer.eventLines, Tracer.eventLines, hshown, describe_mute]
    rfl
  rw [muteSession, muteTracer, Session.record, Tracer.push]
  dsimp only
  rw [hevents, ← hlines]
  rfl

/-- What is carried makes no difference to what is recorded without failing. -/
theorem admits_mute (e : Event) : (muteSession s).tracer.admits e.mute = s.tracer.admits e := by
  show (!s.tracer.debug || e.action.mute.isShowable) = (!s.tracer.debug || e.action.isShowable)
  rw [e.action.isShowable_mute]

theorem muteSession_warn (message : String) (e : Event) :
    muteSession (s.warn message e) = (muteSession s).warn message e.mute :=
  muteSession_record { s with warnings := s.warnings ++ [message] } e

/-! ## Configurations -/

/-- A frame with what its operands carry left out. -/
def Frame.mute (f : Frame) : Frame := ⟨muteAll f.rest, muteAll f.stack, f.last⟩

/-- A waiting derivation with what its operands carry left out. -/
def Pending.mute (p : Pending) : Pending := ⟨p.frame.mute, p.condition⟩

/-- A configuration with what its operands carry left out. -/
def Config.mute (c : Config) : Config :=
  ⟨c.current.mute, c.callers.map Pending.mute, muteSession c.session⟩

/-- What follows a configuration, with what its operands carry left out. -/
def Next.mute : Next → Next
  | .running c => .running c.mute
  | .halted outcome session => .halted (muteOutcome outcome) (muteSession session)

theorem Config.depth_mute (c : Config) : c.mute.depth = c.depth := List.length_map _

theorem Config.mute_proceed (c : Config) (frame : Frame) (action : Action) :
    (c.proceed frame action).mute = c.mute.proceed frame.mute action.mute := by
  have hadmits : c.mute.session.tracer.admits (c.mute.event action.mute) =
      c.session.tracer.admits (c.event action) := admits_mute c.session (c.event action)
  have hmoved : (c.moved frame action).mute = c.mute.moved frame.mute action.mute := by
    rw [moved, mute, muteSession_record]
    rfl
  rw [proceed, proceed, hadmits, ← hmoved]
  split <;> rfl

/-! ## Parts of a transition -/

theorem Pushes.mute {step v : Value} {action : Nat → Action} (h : Pushes step v action) :
    Pushes step.mute v.mute fun depth => (action depth).mute := by
  cases h with
  | literal v => exact .literal v.mute
  | morphism ha hc => exact .morphism ha hc
  | sub steps =>
    have hpush := Pushes.sub (muteAll steps)
    rw [length_muteAll] at hpush
    exact hpush

theorem Targets.mute {stack operands : List Value} {last : Option Primitive} {p : Primitive}
    {implicit : Bool} (h : Targets stack last p implicit operands) :
    Targets (muteAll stack) last p implicit (muteAll operands) := by
  cases h with
  | named hp => exact .named hp
  | @again top below _ hname =>
    refine .again fun name hmute => ?_
    cases top with
    | str s => exact hname s rfl
    | null | bool | int | float | bytes | list | tuple | mapping | morphism | literal | sub | noRule
    | reentrant => cases hmute

theorem target_mute_of_error {stack : List Value} {last : Option Primitive} {e : EvalError}
    (h : target stack last = .error e) : target (muteAll stack) last = .error e.mute := by
  cases stack with
  | nil =>
    cases h
    rfl
  | cons top below =>
    cases top with
    | str name =>
      show target (.str name :: muteAll below) last = _
      rw [target] at h ⊢
      cases hname : Primitive.ofName? name with
      | none =>
        rw [hname] at h
        cases h
        rfl
      | some p =>
        rw [hname] at h
        cases h
    | null | bool | int | float | bytes | list | tuple | mapping | morphism | literal | sub | noRule
    | reentrant =>
      cases last with
      | none =>
        cases h
        rfl
      | some p => cases h

theorem arguments_mute (p : Primitive) (operands : List Value) :
    Config.arguments p (muteAll operands) = muteAll (Config.arguments p operands) := by
  rw [Config.arguments, Config.arguments, muteAll_eq_map, muteAll_eq_map, ← List.map_take,
    List.map_reverse]

/-- Within a call a primitive results in the same, whatever is carried; why it fails
    does not even mention its operands. -/
theorem run_primitive_mute (p : Primitive) (args : List Value) :
    p.run s.callback (muteAll args) = (p.run s.callback args).map Value.mute := by
  match p, args with
  | .isZero, [v] => exact congrArg (fun b => Except.ok (Value.bool b)) v.isZero_mute
  | .subtract, [a, b] =>
    show (a.mute.sub? b.mute).mapError Failure.fault =
      ((a.sub? b).mapError Failure.fault).map Value.mute
    rw [Value.sub?_mute]
    cases a.sub? b <;> rfl
  | .multiply, [a, b] =>
    show a.mute.mul? s.callback b.mute = (a.mul? s.callback b).map Value.mute
    have hproduct : (a.mute.product? b.mute).mapError Failure.fault =
        ((a.product? b).mapError .fault).map Value.mute := by
      rw [Value.product?_mute]
      cases a.product? b <;> rfl
    cases a with
    | reentrant => rfl
    | null | bool | int | float | str | bytes | list | tuple | mapping | morphism | literal | sub
    | noRule => exact hproduct
  | .isZero, [] | .subtract, [] | .multiply, [] | .subtract, [_] | .multiply, [_] => rfl
  | .isZero, _ :: _ :: vs | .subtract, _ :: _ :: _ :: vs | .multiply, _ :: _ :: _ :: vs =>
    simp only [muteAll, Primitive.run, Except.map, List.length_cons, length_muteAll]

theorem call_mute (p : Primitive) (args : List Value) :
    p.call s.callback (muteAll args) = (p.call s.callback args).map Value.mute := by
  rw [Primitive.call, Primitive.call, Operation.call, Operation.call, length_muteAll]
  split
  · exact run_primitive_mute s p args
  · rfl

theorem chosen_mute (b t e : Value) : chosen b.mute t.mute e.mute = (chosen b t e).mute := by
  rw [chosen, chosen, b.truthy_mute]
  split <;> rfl

theorem isStep_mute (v : Value) : isStep v.mute = isStep v := by
  cases v <;> rfl

/-- A depth that is refused is not refused for an operand. -/
theorem mute_of_enter {limit : Value} {depth : Nat} {failure : Failure}
    (h : enter limit depth = .error failure) : failure.mute = failure := by
  rw [enter] at h
  split at h
  · cases h
    rfl
  · cases h
    exact EvalError.mute_raised (.tooDeep depth limit)
  · cases h

theorem leftover_mute (stack : List Value) :
    Config.leftover (muteAll stack) = Config.leftover stack := by
  have hrepr : (Value.list (muteAll stack).reverse).repr = (Value.list stack.reverse).repr := by
    rw [← (Value.list stack.reverse).repr_mute, Value.mute, muteAll_eq_map, muteAll_eq_map,
      List.map_reverse]
  exact congrArg (fun shown =>
    s!"Stack did not end with a single value. Final stack: {shown}") hrepr

theorem ending_mute (c : Config) : c.mute.ending = c.ending.map muteSession := by
  have hstack : c.mute.current.stack = muteAll c.current.stack := rfl
  have hwarn : c.mute.warnLeftover = muteSession c.warnLeftover := by
    rw [Config.warnLeftover, Config.warnLeftover, hstack, leftover_mute, muteSession_warn]
    rfl
  rw [Config.ending, Config.ending, hstack, length_muteAll, areShowable_muteAll, hwarn]
  repeat' split
  · rfl
  · rfl
  · rfl

/-! ## Transitions -/

variable {limit : Value} {c : Config}

theorem rest_mute {step : Value} {rest : List Value} (h : c.current.rest = step :: rest) :
    c.mute.current.rest = step.mute :: muteAll rest := congrArg muteAll h

theorem stack_mute {e t b : Value} {below : List Value}
    (h : c.current.stack = e :: t :: b :: below) :
    c.mute.current.stack = e.mute :: t.mute :: b.mute :: muteAll below := congrArg muteAll h

theorem target_mute {p : Primitive} {implicit : Bool} {operands : List Value}
    (h : target c.current.stack c.current.last = .ok (p, implicit, operands)) :
    target c.mute.current.stack c.mute.current.last = .ok (p, implicit, muteAll operands) :=
  target_eq_ok_iff.2 (target_eq_ok_iff.1 h).mute

theorem sub_mute {b t e : Value} {steps : List Value} (h : chosen b t e = .sub steps) :
    chosen b.mute t.mute e.mute = .sub (muteAll steps) := by
  rw [chosen_mute, h, Value.mute]

theorem not_sub_mute {b t e : Value} (h : ∀ steps, chosen b t e ≠ .sub steps) (steps : List Value) :
    chosen b.mute t.mute e.mute ≠ .sub steps := by
  rw [chosen_mute]
  intro hsub
  cases hv : chosen b t e with
  | sub steps => exact h steps hv
  | null | bool | int | float | str | bytes | list | tuple | mapping | morphism | literal | noRule
  | reentrant =>
    rw [hv] at hsub
    cases hsub

namespace Config

/-- A step fails for the same reason. -/
theorem Fails.mute {step : Value} {failure : Failure} (h : Fails limit c step failure) :
    Fails limit c.mute step.mute failure.mute := by
  cases h with
  | target ht =>
    rw [EvalError.mute_raised]
    exact .target (target_mute_of_error ht)
  | operands ht hl =>
    rw [EvalError.mute_raised]
    have hfails : Fails limit c.mute _ _ :=
      .operands (target_mute ht) ((length_muteAll _).symm ▸ hl)
    rw [length_muteAll] at hfails
    exact hfails
  | @primitive p implicit operands cause ht hl hc =>
    have hcall : p.call c.mute.session.callback (arguments p (muteAll operands)) =
        .error cause := by
      rw [arguments_mute]
      exact (call_mute c.session p _).trans (congrArg _ hc)
    have hfails : Fails limit c.mute _ _ :=
      .primitive (target_mute ht) ((length_muteAll operands).symm ▸ hl) hcall
    rw [arguments_mute] at hfails
    rw [EvalError.mute_raised]
    exact hfails
  | condOperands hl =>
    have hlength : c.mute.current.stack.length = c.current.stack.length := length_muteAll _
    have hfails : Fails limit c.mute _ _ := .condOperands (hlength.symm ▸ hl)
    rw [hlength] at hfails
    rw [EvalError.mute_raised]
    exact hfails
  | nesting hs hv he =>
    rw [mute_of_enter he]
    exact .nesting (stack_mute hs) (sub_mute hv) (c.depth_mute.symm ▸ he)
  | notAStep hs =>
    rw [EvalError.mute_raised]
    exact .notAStep ((isStep_mute step).trans hs)

/-- What makes a derivation move on does so once what is carried has been left out. -/
theorem Moves.mute {d : Config} {frame : Frame} {action : Action} (h : Moves c d frame action) :
    Moves c.mute d.mute frame.mute action.mute := by
  cases h with
  | pushed hr hp =>
    have hmoves : Moves c.mute _ _ _ := .pushed (rest_mute hr) hp.mute
    rw [c.depth_mute] at hmoves
    exact hmoves
  | @applied rest operands p implicit result hr ht hl hc =>
    have hcall : p.call c.mute.ticked.session.callback (arguments p (muteAll operands)) =
        .ok result.mute := by
      rw [arguments_mute]
      exact (call_mute c.session p _).trans (congrArg _ hc)
    have hmoves : Moves c.mute _ _ _ :=
      .applied (rest_mute hr) (target_mute ht) ((length_muteAll operands).symm ▸ hl) hcall
    rw [arguments_mute, c.depth_mute, drop_muteAll] at hmoves
    exact hmoves
  | decided hr hs hv =>
    have hmoves : Moves c.mute _ _ _ :=
      .decided (rest_mute hr) (stack_mute hs) (not_sub_mute hv)
    rw [chosen_mute, c.depth_mute, Value.truthy_mute] at hmoves
    exact hmoves
  | returned hr hv hc he =>
    have hcallers : c.mute.callers = _ :: _ := congrArg (List.map Pending.mute) hc
    have hending : c.mute.ending = .ok (muteSession _) :=
      (ending_mute c).trans (congrArg (Except.map muteSession) he)
    have hmoves : Moves c.mute _ _ _ :=
      .returned (congrArg muteAll hr) (getLast?_muteAll hv) hcallers hending
    rw [List.length_map] at hmoves
    exact hmoves

/-- A transition is one as well once what is carried has been left out. -/
theorem Transition.mute {n : Next} (h : Transition limit c n) : Transition limit c.mute n.mute := by
  cases h with
  | moved hm ha =>
    have hnext : c.mute.next limit = _ := next_of_moves hm.mute
    rw [← mute_proceed, proceed, if_pos ha] at hnext
    exact next_eq_iff.1 hnext
  | undescribed hm ha =>
    have hnext : c.mute.next limit = _ := next_of_moves hm.mute
    rw [← mute_proceed, proceed, if_neg (Bool.eq_false_iff.1 ha)] at hnext
    exact next_eq_iff.1 hnext
  | entered hr hs hv he =>
    have hnext : Transition limit c.mute _ :=
      .entered (rest_mute hr) (stack_mute hs) (sub_mute hv) (c.depth_mute.symm ▸ he)
    rw [Value.truthy_mute] at hnext
    exact hnext
  | failed hr hf => exact .failed (rest_mute hr) hf.mute
  | finished hr hv hc he =>
    exact .finished (congrArg muteAll hr) (getLast?_muteAll hv)
      (congrArg (List.map Pending.mute) hc)
      ((ending_mute c).trans (congrArg (Except.map muteSession) he))
  | unwarned hr hv he =>
    obtain rfl := eq_tooManyDigits_of_ending he
    exact .unwarned (congrArg muteAll hr) (getLast?_muteAll hv)
      ((ending_mute c).trans (congrArg (Except.map muteSession) he))
  | emptied hr hs => exact .emptied (congrArg muteAll hr) (congrArg muteAll hs)

end Config

/-! ## Runs -/

/-- The end of a run, with what its operands carry left out. -/
def muteEnd (r : Except Failure Value × Session Event) : Except Failure Value × Session Event :=
  (muteOutcome r.1, muteSession r.2)

theorem run_mute (limit : Value) (c : Config) : run limit c.mute = muteEnd (run limit c) := by
  induction c using run.induct limit with
  | case1 c outcome session hn =>
    have hmute := (Config.next_eq_iff.1 hn).mute
    rw [run_of_halted hn]
    exact run_of_halted (Config.next_of_transition hmute)
  | case2 c c' hn ih =>
    have hmute := (Config.next_eq_iff.1 hn).mute
    rw [run_of_running hn, ← ih]
    exact run_of_running (Config.next_of_transition hmute)

theorem runDerivation_mute (limit : Value) (steps : List Value) (s : Session Event) :
    runDerivation limit (muteAll steps) (muteSession s) =
      muteEnd (runDerivation limit steps s) := by
  rw [runDerivation, runDerivation]
  cases he : enter limit 0 with
  | error failure =>
    exact congrArg (fun f => (Except.error f, muteSession s)) (mute_of_enter he).symm
  | ok _ => exact run_mute limit ⟨.start steps, [], s⟩

namespace Evaluator

theorem strategy_mute (limit : Value) (steps : List Value) (s : Session Event) :
    strategy limit (muteAll steps) (muteSession s) = muteEnd (strategy limit steps s) := by
  rw [strategy, strategy, length_muteAll]
  have hrun := runDerivation_mute limit steps
    (s.note s!"Evaluating derivation ({steps.length} steps)...")
  generalize runDerivation limit steps (s.note _) = r at hrun ⊢
  have hrun' : runDerivation limit (muteAll steps)
      ((muteSession s).note s!"Evaluating derivation ({steps.length} steps)...") = muteEnd r := hrun
  rw [hrun']
  obtain ⟨failure | v, t⟩ := r
  · rfl
  · rfl

/-- An evaluator with what the operands on record carry left out. -/
def mute (e : Evaluator) : Evaluator :=
  { e with shell := { e.shell with tracer := muteTracer e.shell.tracer } }

variable {e : Evaluator}

/-- A call ends alike once what is carried has been left out, and writes the same. -/
theorem evaluate_mute (h : e.shell.inFlight = false) (derivation : Value) :
    (e.evaluate derivation.mute).outcome = muteOutcome (e.evaluate derivation).outcome ∧
      (e.evaluate derivation.mute).lines = (e.evaluate derivation).lines ∧
      (e.evaluate derivation.mute).after = (e.evaluate derivation).after.mute := by
  have hitems := derivation.items?_mute
  cases hi : derivation.items? with
  | error f =>
    rw [hi] at hitems
    rw [evaluate, evaluate, Shell.call_of_not_iterable h hi, Shell.call_of_not_iterable h hitems]
    exact ⟨rfl, rfl, rfl⟩
  | ok steps =>
    rw [hi] at hitems
    -- Nothing has been recorded when a call begins.
    have hopening : muteSession e.shell.opening = e.shell.opening := rfl
    have hstrategy := strategy_mute e.limit steps e.shell.opening
    rw [hopening] at hstrategy
    rw [evaluate, evaluate, Shell.call_of_steps h hi, Shell.call_of_steps h hitems, hstrategy]
    exact ⟨rfl, rfl, rfl⟩

/-- Calls with derivations that only differ in what is carried end alike. -/
theorem evaluate_of_mute_eq (h : e.shell.inFlight = false) {D D' : Value} (hD : D'.mute = D.mute) :
    muteOutcome (e.evaluate D').outcome = muteOutcome (e.evaluate D).outcome ∧
      (e.evaluate D').lines = (e.evaluate D).lines ∧
      (e.evaluate D').after.mute = (e.evaluate D).after.mute := by
  obtain ⟨houtcome, hlines, hafter⟩ := evaluate_mute h D
  obtain ⟨houtcome', hlines', hafter'⟩ := evaluate_mute h D'
  rw [hD] at houtcome' hlines' hafter'
  exact ⟨houtcome'.symm.trans houtcome, hlines'.symm.trans hlines, hafter'.symm.trans hafter⟩

end Evaluator

end Stack

end Heptad
