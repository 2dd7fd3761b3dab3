import Heptad.Proofs.Stack.Depth
import Heptad.Proofs.Stack.Steps

/-!
# The limit of nesting

The limit decides whether a derivation may be entered, and nothing else. So it
only cuts off: where it is not exceeded it is not seen.

* `run_of_limit`: a run that does not exceed its limit is the same under any
  greater one;
* `stepsNesting`: how deep sub-derivations are nested in a derivation, those
  that a literal pushes included;
* `Config.Fits.transition`: depth and nesting together never grow, although a
  sub-derivation can leave the branch it stands in as its value, and be run later
  and less deep;
* `limit_only_cuts_off`: so a limit as great as the nesting is never exceeded.
-/

namespace Heptad.Stack

-- Powers of naturals are those of the core library, whatever else is imported.
attribute [local instance (high)] instPowNat

/-! ## Beyond the limit -/

/-- Whether an evaluation fails with the code of nesting beyond the limit. -/
def BeyondLimit (outcome : Except Failure Value) : Prop :=
  ∃ e : EvalError, outcome = .error (.evaluation e) ∧ e.kind = .invalidStep ∧ e.code = depthCode

/-- No kind of error has this code. -/
theorem kind_code_ne_depthCode (kind : ErrorKind) : kind.code ≠ depthCode := by
  cases kind <;> decide

/-- The code belongs to one reason only. -/
theorem code_eq_depthCode_iff {e : EvalError} :
    e.code = depthCode ↔ ∃ depth limit, e = .tooDeep depth limit := by
  constructor
  · intro h
    rw [EvalError.code.eq_def] at h
    split at h
    · exact ⟨_, _, rfl⟩
    · exact absurd h (kind_code_ne_depthCode _)
  · rintro ⟨depth, limit, rfl⟩
    rfl

/-- How an evaluation ends that is nested beyond an integer limit: with this code if the
    limit has a text. -/
def CutOff (k : Int) (outcome : Except Failure Value) : Prop :=
  if hasDecimal k then BeyondLimit outcome else outcome = .error (.fault .tooManyDigits)

theorem cutOff_tooDeep (depth : Nat) (k : Int) :
    CutOff k (.error (EvalError.tooDeep depth (.int k)).raised) := by
  rw [CutOff]
  split
  · rename_i hk
    exact ⟨_, congrArg _ (EvalError.raised_of_showable hk), rfl, rfl⟩
  · rename_i hk
    exact congrArg _ (EvalError.raised_of_not_showable (Bool.eq_false_iff.2 hk))

theorem not_beyondLimit_ok (v : Value) : ¬ BeyondLimit (.ok v) := by
  rintro ⟨e, h, -⟩
  cases h

theorem not_cutOff_ok (k : Int) (v : Value) : ¬ CutOff k (.ok v) := by
  rw [CutOff]
  split
  · exact not_beyondLimit_ok v
  · exact nofun

theorem not_beyondLimit_fault (f : Fault) : ¬ BeyondLimit (.error (.fault f)) := by
  rintro ⟨e, h, -⟩
  cases h

theorem not_beyondLimit_of_ne {e : EvalError} (h : ∀ depth limit, e ≠ .tooDeep depth limit) :
    ¬ BeyondLimit (.error (.evaluation e)) := by
  rintro ⟨e', he, -, hcode⟩
  cases he
  obtain ⟨depth, limit, rfl⟩ := code_eq_depthCode_iff.1 hcode
  exact h depth limit rfl

theorem not_beyondLimit_raised {e : EvalError} (h : ∀ depth limit, e ≠ .tooDeep depth limit) :
    ¬ BeyondLimit (.error e.raised) := by
  rw [EvalError.raised]
  split
  · exact not_beyondLimit_of_ne h
  · exact not_beyondLimit_fault _

theorem not_beyondLimit_inFlight (source : String) :
    ¬ BeyondLimit (.error (.evaluation (.inFlight source))) := not_beyondLimit_of_ne nofun

/-- What an application finds has nothing to do with the limit. -/
theorem target_ne_tooDeep {stack : List Value} {last : Option Primitive} {depth : Nat}
    {limit : Value} : target stack last ≠ .error (.tooDeep depth limit) := by
  intro h
  rcases target_eq_error h with he | ⟨_, he⟩ | ⟨_, he⟩ <;> cases he

/-! ## Two limits -/

variable {k k' : Int} {c c' : Config}

/-- What follows a configuration under a limit follows it under a greater one,
    unless the limit is exceeded. -/
theorem transition_of_limit (hk : k ≤ k') {n : Next} (h : Config.Transition (.int k) c n) :
    Config.Transition (.int k') c n ∨
      ∃ outcome session, n = .halted outcome session ∧ CutOff k outcome := by
  cases h with
  | moved hm ha => exact .inl (.moved hm ha)
  | undescribed hm ha => exact .inl (.undescribed hm ha)
  | entered hr hs hv he =>
    exact .inl (.entered hr hs hv (enter_int_eq_ok.2 (Int.le_trans (enter_int_eq_ok.1 he) hk)))
  | finished hr hv hc he => exact .inl (.finished hr hv hc he)
  | unwarned hr hv he => exact .inl (.unwarned hr hv he)
  | emptied hr hs => exact .inl (.emptied hr hs)
  | failed hr hf =>
    cases hf with
    | target ht => exact .inl (.failed hr (.target ht))
    | operands ht hl => exact .inl (.failed hr (.operands ht hl))
    | primitive ht hl hc => exact .inl (.failed hr (.primitive ht hl hc))
    | condOperands hl => exact .inl (.failed hr (.condOperands hl))
    | notAStep hs => exact .inl (.failed hr (.notAStep hs))
    | nesting hs hv he =>
      obtain ⟨-, rfl⟩ := enter_int_eq_error he
      exact .inr ⟨_, _, rfl, cutOff_tooDeep _ _⟩

/-- A run that does not exceed its limit is the same under a greater one. -/
theorem run_of_limit (hk : k ≤ k') (c : Config) :
    run (.int k) c = run (.int k') c ∨ CutOff k (run (.int k) c).1 := by
  induction c using run.induct (.int k) with
  | case1 c outcome session hn =>
    rw [run_of_halted hn]
    rcases transition_of_limit hk (Config.next_eq_iff.1 hn) with ht | ⟨_, _, heq, hb⟩
    · exact .inl (run_of_halted (Config.next_of_transition ht)).symm
    · cases heq
      exact .inr hb
  | case2 c c' hn ih =>
    rw [run_of_running hn]
    rcases transition_of_limit hk (Config.next_eq_iff.1 hn) with ht | ⟨_, _, heq, -⟩
    · rwa [run_of_running (Config.next_of_transition ht)]
    · cases heq

theorem runDerivation_of_limit (hk : k ≤ k') (steps : List Value) (session : Session Event) :
    runDerivation (.int k) steps session = runDerivation (.int k') steps session ∨
      CutOff k (runDerivation (.int k) steps session).1 := by
  rw [runDerivation, runDerivation]
  cases he : enter (.int k) 0 with
  | error failure =>
    obtain ⟨-, rfl⟩ := enter_int_eq_error he
    exact .inr (cutOff_tooDeep _ _)
  | ok _ =>
    rw [enter_int_eq_ok.2 (Int.le_trans (enter_int_eq_ok.1 he) hk)]
    exact run_of_limit hk _

namespace Evaluator

theorem strategy_of_limit (hk : k ≤ k') (steps : List Value) (session : Session Event) :
    strategy (.int k) steps session = strategy (.int k') steps session ∨
      CutOff k (strategy (.int k) steps session).1 := by
  rw [strategy, strategy]
  rcases runDerivation_of_limit hk steps
    (session.note s!"Evaluating derivation ({steps.length} steps)...") with h | h
  · exact .inl (by rw [h])
  · right
    generalize runDerivation (.int k) steps _ = r at h ⊢
    obtain ⟨failure | v, t⟩ := r
    · exact h
    · exact absurd h (not_cutOff_ok k v)

/-- A call whose limit is not exceeded is the same under a greater one. -/
theorem call_of_limit (hk : k ≤ k') (s : Shell Event) (derivation : Value) :
    s.call derivation (strategy (.int k)) = s.call derivation (strategy (.int k')) ∨
      CutOff k (s.call derivation (strategy (.int k))).outcome := by
  cases h : s.inFlight with
  | true => exact .inl (by rw [Shell.call_of_inFlight h, Shell.call_of_inFlight h])
  | false =>
    cases hi : derivation.items? with
    | error f =>
      exact .inl (by rw [Shell.call_of_not_iterable h hi, Shell.call_of_not_iterable h hi])
    | ok steps =>
      rw [Shell.call_of_steps h hi, Shell.call_of_steps h hi]
      rcases strategy_of_limit hk steps s.opening with heq | hb
      · exact .inl (by rw [heq])
      · exact .inr hb

end Evaluator

/-! ## Nesting -/

mutual

/-- How deep sub-derivations are nested in the steps of a derivation. -/
def stepsNesting : List Value → Nat
  | [] => 0
  | v :: vs => max (stepNesting v) (stepsNesting vs)

/-- How deep they are nested in a step, which is one of them or pushes one. -/
def stepNesting : Value → Nat
  | .literal v => heldNesting v
  | .sub steps => 1 + stepsNesting steps
  | _ => 0

/-- How deep they are nested in a value, if it can become a branch. -/
def heldNesting : Value → Nat
  | .sub steps => 1 + stepsNesting steps
  | _ => 0

end

theorem heldNesting_of_pushes {step v : Value} {action : Nat → Action}
    (h : Pushes step v action) : heldNesting v = stepNesting step := by
  cases h with
  | literal | morphism | sub => rfl

theorem heldNesting_of_isPlain {v : Value} (h : isPlain v = true) : heldNesting v = 0 := by
  cases v with
  | sub => cases h
  | null | bool | int | float | str | bytes | list | tuple | mapping | morphism | literal | noRule
  | reentrant => rfl

/-! ## Room for the nesting -/

/-- A derivation in progress has room for what it can still enter, if it is nested
    `depth` deep and the limit is `k`. -/
structure Frame.Fits (k : Int) (depth : Nat) (f : Frame) : Prop where
  rest : ((depth + stepsNesting f.rest : Nat) : Int) ≤ k
  stack : ∀ v ∈ f.stack, ((depth + heldNesting v : Nat) : Int) ≤ k

/-- Each of the derivations that wait has room for what it can still enter, one less deep
    each. -/
def CallersFit (k : Int) : List Pending → Prop
  | [] => True
  | p :: callers => p.frame.Fits k callers.length ∧ CallersFit k callers

/-- All derivations in progress have room. -/
structure Config.Fits (k : Int) (c : Config) : Prop where
  current : c.current.Fits k c.depth
  callers : CallersFit k c.callers

/-- The branch a conditional chooses was one of its operands. -/
theorem chosen_mem (b t e : Value) (below : List Value) :
    chosen b t e ∈ e :: t :: b :: below := by
  rw [chosen]
  split
  · exact List.mem_cons_of_mem _ List.mem_cons_self
  · exact List.mem_cons_self

theorem below_subset (e t b : Value) (below : List Value) : below ⊆ e :: t :: b :: below :=
  fun _ hv => List.mem_cons_of_mem _ (List.mem_cons_of_mem _ (List.mem_cons_of_mem _ hv))

namespace Frame.Fits

variable {k : Int} {depth : Nat} {step : Value} {rest stack stack' : List Value}
  {last last' : Option Primitive}

/-- Room for a step, and for the steps behind it. -/
theorem of_cons (h : Fits k depth ⟨step :: rest, stack, last⟩) :
    ((depth + stepNesting step : Nat) : Int) ≤ k ∧ Fits k depth ⟨rest, stack, last⟩ := by
  have hle := h.rest
  simp only [stepsNesting] at hle
  exact ⟨by omega, ⟨by simp only; omega, h.stack⟩⟩

/-- Fewer operands need no more room. -/
theorem of_subset (h : Fits k depth ⟨rest, stack, last⟩) (hs : stack' ⊆ stack) :
    Fits k depth ⟨rest, stack', last'⟩ := ⟨h.rest, fun v hv => h.stack v (hs hv)⟩

/-- One more operand needs room of its own. -/
theorem push {v : Value} (h : Fits k depth ⟨rest, stack, last⟩)
    (hv : ((depth + heldNesting v : Nat) : Int) ≤ k) : Fits k depth ⟨rest, v :: stack, last⟩ :=
  ⟨h.rest, List.forall_mem_cons.2 ⟨hv, h.stack⟩⟩

/-- There is room for the depth itself. -/
theorem depth_le {f : Frame} (h : f.Fits k depth) : (depth : Int) ≤ k := by
  have := h.rest
  omega

end Frame.Fits

/-- Whether all derivations have room, or the run is over. -/
def Next.Fits (k : Int) : Next → Prop
  | .running c => c.Fits k
  | .halted _ _ => True

/-- A derivation that moves on needs no more room than there was. The value of a branch
    is one less deep than it was in the branch. -/
theorem Config.Fits.moved {k : Int} {c d : Config} {frame : Frame} {action : Action}
    (hc : c.Fits k) (h : Config.Moves c d frame action) : (d.moved frame action).Fits k := by
  obtain ⟨⟨crest, stack, last⟩, callers, session⟩ := c
  obtain ⟨hcurrent, hcallers⟩ := hc
  cases h with
  | @pushed step v rest action hr hp =>
    cases hr
    obtain ⟨hstep, hrest⟩ := hcurrent.of_cons
    exact ⟨hrest.push (heldNesting_of_pushes hp ▸ hstep), hcallers⟩
  | @applied rest operands p implicit result hr ht ha hv =>
    cases hr
    obtain ⟨-, hrest⟩ := hcurrent.of_cons
    have hbelow : operands.drop p.arity ⊆ stack :=
      List.Subset.trans (List.drop_subset _ _) (target_eq_ok_iff.1 ht).subset
    have hresult : heldNesting result = 0 := heldNesting_of_isPlain (call_eq_ok_iff.1 hv).isPlain
    refine ⟨(hrest.of_subset hbelow).push ?_, hcallers⟩
    rw [hresult]
    exact hcurrent.depth_le
  | @decided rest below e t b hr hs hv =>
    cases hr
    cases hs
    obtain ⟨-, hrest⟩ := hcurrent.of_cons
    exact ⟨(hrest.of_subset (below_subset e t b below)).push
      (hcurrent.stack _ (chosen_mem b t e below)), hcallers⟩
  | @returned p callers v session hr hv hc =>
    cases hc
    obtain ⟨hcaller, hcallers⟩ := hcallers
    have hvalue := hcurrent.stack v (List.mem_of_getLast? hv)
    refine ⟨hcaller.push ?_, hcallers⟩
    simp only [Config.depth, List.length_cons] at hvalue
    omega

/-- No transition needs more room than there was. A branch is one deeper than the
    operand it was. -/
theorem Config.Fits.transition {k : Int} {limit : Value} {c : Config} {n : Next}
    (hc : c.Fits k) (h : Config.Transition limit c n) : n.Fits k := by
  cases h with
  | moved hm => exact hc.moved hm
  | @entered rest below steps e t b hr hs hv he =>
    obtain ⟨⟨crest, stack, last⟩, callers, session⟩ := c
    obtain ⟨hcurrent, hcallers⟩ := hc
    cases hr
    cases hs
    obtain ⟨-, hrest⟩ := hcurrent.of_cons
    have hbranch := hcurrent.stack _ (chosen_mem b t e below)
    rw [hv, heldNesting, ← Nat.add_assoc] at hbranch
    exact ⟨⟨hbranch, nofun⟩, hrest.of_subset (below_subset e t b below), hcallers⟩
  | undescribed | failed | finished | unwarned | emptied => exact trivial

/-- Where there is room, no transition exceeds the limit. -/
theorem Config.Fits.not_beyondLimit {k : Int} {c : Config} (hc : c.Fits k)
    {outcome : Except Failure Value} {session : Session Event}
    (h : Config.Transition (.int k) c (.halted outcome session)) : ¬ BeyondLimit outcome := by
  cases h with
  | undescribed => exact not_beyondLimit_fault _
  | finished => exact not_beyondLimit_ok _
  | unwarned hr hv he =>
    rw [eq_tooManyDigits_of_ending he]
    exact not_beyondLimit_fault _
  | emptied => exact not_beyondLimit_of_ne nofun
  | failed hr hf =>
    cases hf with
    | target ht =>
      refine not_beyondLimit_raised ?_
      rintro depth limit rfl
      exact target_ne_tooDeep ht
    | operands | primitive | condOperands | notAStep => exact not_beyondLimit_raised nofun
    | @nesting e t b below steps failure hs hv he =>
      have hbranch := hc.current.stack (.sub steps) (hs ▸ hv ▸ chosen_mem b t e below)
      have hdeep := (enter_int_eq_error he).1
      simp only [heldNesting, Config.depth, Config.ticked] at hbranch hdeep
      omega

/-- No run goes beyond a limit that there is room for. -/
theorem Config.Fits.run {k : Int} {c : Config} (hc : c.Fits k) :
    ¬ BeyondLimit (Stack.run (.int k) c).1 := by
  induction c using run.induct (.int k) with
  | case1 c outcome session hn =>
    rw [run_of_halted hn]
    exact hc.not_beyondLimit (Config.next_eq_iff.1 hn)
  | case2 c c' hn ih =>
    rw [run_of_running hn]
    exact ih (hc.transition (Config.next_eq_iff.1 hn))

/-- A derivation about to be run has room for its nesting. -/
theorem Config.Fits.start {k : Int} {steps : List Value} (h : (stepsNesting steps : Int) ≤ k)
    (session : Session Event) : Config.Fits k ⟨.start steps, [], session⟩ :=
  ⟨⟨by simpa [Config.depth, Frame.start] using h, nofun⟩, trivial⟩

/-- A call whose limit is as great as the nesting of its derivation does not
    exceed it. -/
theorem Evaluator.not_beyondLimit_evaluate {s : Shell Event} {k : Int} {derivation : Value}
    {steps : List Value} (hi : derivation.items? = .ok steps)
    (hk : (stepsNesting steps : Int) ≤ k) :
    ¬ BeyondLimit (Evaluator.evaluate ⟨s, .int k⟩ derivation).outcome := by
  cases h : s.inFlight with
  | true =>
    rw [evaluate, Shell.call_of_inFlight h]
    exact not_beyondLimit_inFlight _
  | false =>
    have henter : enter (.int k) 0 = .ok () := enter_int_eq_ok.2 (by omega)
    rw [(evaluate_of_steps h hi).1, runDerivation, henter]
    exact (Config.Fits.start hk _).run

/-! ## The limit only cuts off -/

/-- The limit only cuts off: either it is exceeded, which is told by a code of its own if
    the limit has a text, or any greater one leads to the same value or failure, the same
    lines, and the same count, warnings and trace. It is not exceeded if it is as great as
    the nesting of the derivation. -/
theorem limit_only_cuts_off (s : Shell Event) (derivation : Value) (k k' : Int) (hk : k ≤ k') :
    (CutOff k (Evaluator.evaluate ⟨s, .int k⟩ derivation).outcome ∨
      ((Evaluator.evaluate ⟨s, .int k⟩ derivation).outcome =
          (Evaluator.evaluate ⟨s, .int k'⟩ derivation).outcome ∧
        (Evaluator.evaluate ⟨s, .int k⟩ derivation).lines =
          (Evaluator.evaluate ⟨s, .int k'⟩ derivation).lines ∧
        (Evaluator.evaluate ⟨s, .int k⟩ derivation).after.shell =
          (Evaluator.evaluate ⟨s, .int k'⟩ derivation).after.shell)) ∧
    ∀ steps, derivation.items? = .ok steps → (stepsNesting steps : Int) ≤ k →
      ¬ BeyondLimit (Evaluator.evaluate ⟨s, .int k⟩ derivation).outcome := by
  refine ⟨?_, fun steps hi hn => Evaluator.not_beyondLimit_evaluate hi hn⟩
  rcases Evaluator.call_of_limit hk s derivation with heq | hb
  · simp only [Evaluator.evaluate, Call.lift, heq]
    exact .inr ⟨trivial, trivial, trivial⟩
  · exact .inl hb

/-- A conditional that runs a branch which another one has as its value. -/
def returning : List Value :=
  [.literal (.bool true), .literal (.bool true), .sub [.literal (.sub [.literal (.int 7)])],
    .literal (.int 0), .morphism .cond, .literal (.int 0), .morphism .cond]

/-- Two is enough for a nesting of two, and makes no difference to a hundred. -/
theorem limit_only_cuts_off_returning :
    ¬ BeyondLimit ((Evaluator.new .null (.int 2)).evaluate (.list returning)).outcome ∧
      ((Evaluator.new .null (.int 2)).evaluate (.list returning)).outcome =
        ((Evaluator.new .null (.int 100)).evaluate (.list returning)).outcome := by
  obtain ⟨hcut, hfits⟩ :=
    limit_only_cuts_off (.new Evaluator.name .null) (.list returning) 2 100 (by decide)
  have hnot := hfits returning rfl (by decide)
  exact ⟨hnot, (hcut.resolve_left hnot).1⟩

/-- A limit far below zero is exceeded without its code, unlike zero, which is not. -/
theorem limit_of_huge :
    ((Evaluator.new .null (.int (-(10 ^ maxDigits : Nat)))).evaluate
        (.list [.literal (.int 1)])).outcome = .error (.fault .tooManyDigits) ∧
      ((Evaluator.new .null (.int 0)).evaluate (.list [.literal (.int 1)])).outcome =
        .ok (.int 1) := by
  refine ⟨?_, ?_⟩
  · have hbelow (digits : Nat) : -((10 ^ digits : Nat) : Int) < (0 : Nat) := by
      have hpos : 0 < 10 ^ digits := Nat.pow_pos (Nat.succ_pos 9)
      omega
    have hhidden : hasDecimal (-(10 ^ maxDigits : Nat)) = false := by
      rw [hasDecimal, Int.natAbs_neg]
      exact not_hasDecimal_pow (Nat.le_refl _)
    have henter : enter (Evaluator.new .null (.int (-(10 ^ maxDigits : Nat)))).limit 0 =
        .error (.fault .tooManyDigits) := by
      show enter (.int _) 0 = _
      rw [enter, gt?_int_int, decide_eq_true (hbelow maxDigits)]
      exact congrArg Except.error (EvalError.raised_of_not_showable hhidden)
    have hitems : (Value.list [.literal (.int 1)]).items? = .ok [.literal (.int 1)] := rfl
    rw [(Evaluator.evaluate_of_steps rfl hitems).1, runDerivation, henter]
  · have henter : enter (Evaluator.new .null (.int 0)).limit 0 = .ok () :=
      enter_int_eq_ok.2 (Int.le_refl 0)
    have hone := (Evaluator.runSteps_of_enter henter [.literal (.int 1)]).trans
      ((runSteps_eq_advance _ 0 1 _).trans (runSteps_of_atEnd _ ⟨rfl, rfl⟩))
    exact (Evaluator.evaluate_of_end rfl rfl hone rfl rfl).1

end Heptad.Stack
