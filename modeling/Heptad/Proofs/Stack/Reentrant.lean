import Mathlib.Logic.Relation
import Heptad.Proofs.Stack.Depth
import Heptad.Proofs.Stack.Mute
import Heptad.Proofs.Stack.Steps

/-!
# Operands that call back

An operand that calls back during a multiplication finds the guard held by the call
it is part of, and is refused. The multiplication fails for this reason, and with it
the whole call, however deep it was nested; what the call had counted and recorded
until then is what it leaves. The failure is worded with both operands, so that the
other one has to have a text.

* `Session.held`, `Evaluator.evaluate_held`: what the operand is answered is what
  the evaluator answers a call in this moment;
* `ComesTo`: the configurations that a run comes to, one of which it ends as
  (`exists_halted`, `runDerivation_cases`);
* `Config.CallsBack`: a configuration whose next step is such a multiplication;
* `Evaluator.evaluate_of_callsBack`: how a call ends that comes to one;
* `evaluate_reentrant_times_huge`: a call that comes to one with an integer that has no text.
-/

namespace Heptad

/-- The evaluator while a call of it is in this session. -/
def Session.held {ε : Type} (s : Session ε) : Shell ε := ⟨s.tracer, s.steps, s.warnings, true⟩

namespace Stack

/-! ## What a run comes to -/

/-- A run from one configuration comes to another. -/
def ComesTo (limit : Value) : Config → Config → Prop :=
  Relation.ReflTransGen fun c d => c.next limit = .running d

variable {limit : Value} {c d : Config}

theorem run_of_comesTo (h : ComesTo limit c d) : run limit c = run limit d := by
  induction h with
  | refl => rfl
  | tail _ hn ih => exact ih.trans (run_of_running hn)

/-- A configuration ends as one does that it comes to. -/
theorem exists_halted (limit : Value) (c : Config) :
    ∃ d, ComesTo limit c d ∧ d.next limit = .halted (run limit c).1 (run limit c).2 := by
  induction c using run.induct limit with
  | case1 c outcome session hn =>
    rw [run_of_halted hn]
    exact ⟨c, .refl, hn⟩
  | case2 c c' hn ih =>
    obtain ⟨d, hd, hhalted⟩ := ih
    rw [run_of_running hn]
    exact ⟨d, .head hn hd, hhalted⟩

/-- A derivation is not entered, which is then how its run ends, or the run ends as a
    configuration does that it comes to. -/
theorem runDerivation_cases (limit : Value) (steps : List Value) (session : Session Event) :
    (∃ failure, enter limit 0 = .error failure ∧
      (runDerivation limit steps session).1 = .error failure) ∨
    enter limit 0 = .ok () ∧ ∃ d, ComesTo limit ⟨.start steps, [], session⟩ d ∧
      d.next limit = .halted (runDerivation limit steps session).1
        (runDerivation limit steps session).2 := by
  rw [runDerivation]
  cases enter limit 0 with
  | error failure => exact .inl ⟨failure, rfl, rfl⟩
  | ok _ => exact .inr ⟨rfl, exists_halted limit ⟨.start steps, [], session⟩⟩

/-- A configuration comes to where its first transitions lead. -/
theorem comesTo_of_advance {depth n : Nat} (h : advance limit depth n c = .running d) :
    ComesTo limit c d := by
  induction n generalizing c with
  | zero =>
    cases h
    exact .refl
  | succ n ih =>
    rw [advance] at h
    split at h
    · cases h
      exact .refl
    · split at h
      · cases h
      · rename_i c' hn
        exact .head hn (ih h)

/-- No transition changes the name of the evaluator. -/
theorem source_of_transition {n : Next} (h : Config.Transition limit c n) :
    n.session.tracer.source = c.session.tracer.source := by
  have hending {session : Session Event} (he : c.ending = .ok session) :
      session.tracer.source = c.session.tracer.source := by
    rcases c.ending_cases with ⟨-, he'⟩ | ⟨-, -, he'⟩ | ⟨-, -, he'⟩ <;> cases he.symm.trans he' <;>
      rfl
  have hmoves {d : Config} {frame : Frame} {action : Action} (hm : Config.Moves c d frame action) :
      d.session.tracer.source = c.session.tracer.source := by
    cases hm with
    | pushed | applied | decided => rfl
    | returned _ _ _ he => exact hending he
  cases h with
  | moved hm | undescribed hm => exact (hmoves hm :)
  | entered | failed | unwarned | emptied => rfl
  | finished _ _ _ he => exact hending he

theorem source_of_comesTo (h : ComesTo limit c d) :
    d.session.tracer.source = c.session.tracer.source := by
  induction h with
  | refl => rfl
  | tail _ hn ih => exact (source_of_transition (Config.next_eq_iff.1 hn)).trans ih

/-! ## Multiplications that call back -/

/-- Why a call of the named evaluator fails in which an operand has called back, when
    it was multiplied with another one. -/
def reentry (source : String) (carried : List Value) (other : Value) : EvalError :=
  .primitiveFailed Primitive.multiply.name [.reentrant carried, other]
    (.evaluation (.inFlight source))

/-- Only the other operand may be without a text. -/
theorem raised_reentry (source : String) (carried : List Value) (other : Value) :
    (reentry source carried other).raised =
      if other.isShowable then .evaluation (reentry source carried other)
      else .fault .tooManyDigits := by
  have hshown : (reentry source carried other).isShowable = other.isShowable := Bool.and_true _
  rw [EvalError.raised, hshown]

/-- The next step multiplies an operand that calls back with another one. -/
structure Config.CallsBack (c : Config) (carried : List Value) (other : Value) : Prop where
  rest : ∃ rest, c.current.rest = .morphism .apply :: rest
  targets : ∃ implicit below, Targets c.current.stack c.current.last .multiply implicit
    (other :: .reentrant carried :: below)

/-- A run halts at an operand that calls back, with the session in which the step was begun. -/
theorem Config.CallsBack.transition {carried : List Value} {other : Value}
    (h : c.CallsBack carried other) :
    Config.Transition limit c
      (.halted (.error (reentry c.session.tracer.source carried other).raised)
        c.ticked.session) := by
  obtain ⟨rest, hr⟩ := h.rest
  obtain ⟨implicit, below, ht⟩ := h.targets
  have hcall : Primitive.multiply.call c.ticked.session.callback [.reentrant carried, other] =
      .error (.evaluation (.inFlight c.session.tracer.source)) := rfl
  have hlength : Primitive.multiply.arity ≤ (other :: .reentrant carried :: below).length :=
    Nat.le_add_left 2 below.length
  have hfails : Config.Fails limit c.ticked (.morphism .apply) _ :=
    .primitive (target_eq_ok_iff.2 ht) hlength hcall
  exact .failed hr hfails

namespace Evaluator

/-- What an operand that calls back is answered is what the evaluator answers a call
    in this moment: it is refused, writes nothing and changes nothing. -/
theorem evaluate_held (s : Session Event) (limit : Value) (carried : List Value) :
    evaluate ⟨s.held, limit⟩ (.list carried) =
      ⟨(s.callback carried).mapError .evaluation, [], ⟨s.held, limit⟩⟩ := by
  rw [evaluate, Shell.call_of_inFlight rfl]
  rfl

variable {e : Evaluator} {derivation : Value} {steps carried : List Value} {other : Value}

/-- A call that comes to such a multiplication fails, and leaves what was counted and
    recorded until then. -/
theorem evaluate_of_callsBack (h : e.shell.inFlight = false) (hi : derivation.items? = .ok steps)
    (he : enter e.limit 0 = .ok ()) (hc : ComesTo e.limit ⟨.start steps, [], e.opening steps⟩ c)
    (hb : c.CallsBack carried other) :
    (e.evaluate derivation).outcome =
        .error (reentry e.shell.tracer.source carried other).raised ∧
      (e.evaluate derivation).after = ⟨c.ticked.session.finish, e.limit⟩ := by
  have hsource : c.session.tracer.source = e.shell.tracer.source := source_of_comesTo hc
  have hnext : c.next e.limit = _ := Config.next_of_transition hb.transition
  rw [(evaluate_of_steps h hi).1, (evaluate_of_steps h hi).2, runDerivation, he]
  dsimp only
  rw [run_of_comesTo hc, run_of_halted hnext, hsource]
  exact ⟨rfl, rfl⟩

end Evaluator

/-- A derivation that multiplies an operand that calls back by two. -/
def doubling (carried : List Value) : List Value :=
  [.literal (.reentrant carried), .literal (.int 2), .literal (.str "multiply"), .morphism .apply]

/-- A derivation that multiplies such an operand by two inside of a branch. -/
def nestedDoubling (carried : List Value) : List Value :=
  [.literal (.bool true), .sub (doubling carried), .literal .null, .morphism .cond]

/-- Seven steps lead to the multiplication, one of them into the branch. -/
theorem comesTo_nestedDoubling (carried : List Value) {s : Session Event}
    (hs : s.tracer.debug = false) :
    ∃ c, ComesTo (.int 5) ⟨.start (nestedDoubling carried), [], s⟩ c ∧
      c.CallsBack carried (.int 2) ∧ c.session.steps = s.steps + 7 := by
  obtain ⟨⟨source, debug, events⟩, count, warnings, lines⟩ := s
  obtain rfl : debug = false := hs
  obtain ⟨⟨⟨source', debug', events'⟩, count', warnings', lines'⟩, hoperands, rfl, ht⟩ :
      ∃ t, advance (.int 5) 0 3 ⟨.start (nestedDoubling carried), [],
          ⟨⟨source, false, events⟩, count, warnings, lines⟩⟩ =
        .running ⟨⟨[.morphism .cond], [.null, .sub (doubling carried), .bool true], none⟩, [], t⟩ ∧
      t.tracer.debug = false ∧ t.steps = count + 3 := ⟨_, rfl, rfl, rfl⟩
  let t : Session Event := ⟨⟨source', false, events'⟩, count', warnings', lines'⟩
  have hbranch : Config.next (.int 5)
      ⟨⟨[.morphism .cond], [.null, .sub (doubling carried), .bool true], none⟩, [], t⟩ =
    .running ⟨.start (doubling carried), [⟨⟨[], [], none⟩, true⟩], t.tick⟩ :=
    next_of_entered rfl (enter_int_eq_ok.2 (by decide))
  obtain ⟨u, hfactors, hu⟩ : ∃ u, advance (.int 5) 1 3
      ⟨.start (doubling carried), [⟨⟨[], [], none⟩, true⟩], t.tick⟩ =
      .running ⟨⟨[.morphism .apply], [.str "multiply", .int 2, .reentrant carried], none⟩,
        [⟨⟨[], [], none⟩, true⟩], u⟩ ∧
    u.steps = t.tick.steps + 3 := ⟨_, rfl, rfl⟩
  refine ⟨_, ((comesTo_of_advance hoperands).tail hbranch).trans (comesTo_of_advance hfactors),
    ⟨⟨_, rfl⟩, false, [], .named rfl⟩, ?_⟩
  exact hu.trans (congrArg (· + 1 + 3) ht)

/-- An operand that calls back, multiplied with a square that has no text, is refused. But
    what the call fails with is that the operands cannot be shown. -/
theorem evaluate_reentrant_times_huge :
    ((Evaluator.new .null .null).evaluate (.list (.literal (.reentrant []) ::
      (square ++ [.literal (.str "multiply"), .morphism .apply])))).outcome =
        .error (.fault .tooManyDigits) := by
  have henter : enter (Evaluator.new .null .null).limit 0 = .ok () :=
    enter_int_eq_ok.2 (by decide)
  have hrun {s : Session Event} (hs : s.tracer.debug = false) :
      ∃ t, runSteps (Evaluator.new .null .null).limit 0
          ⟨.start (.literal (.reentrant []) ::
            (square ++ [.literal (.str "multiply"), .morphism .apply])), [], s⟩ =
        .halted (.error (.fault .tooManyDigits)) t := by
    rw [Frame.start, runSteps_of_pushes (.literal _) (Tracer.admits_of_showable rfl)]
    obtain ⟨t, ht, -, -, hsquare⟩ := runSteps_square
      (s := s.tick.record ⟨s.tick.steps, .pushed (.reentrant []) 0⟩) hs
      [.literal (.str "multiply"), .morphism .apply] [.reentrant []] none []
    have hcalls : Config.CallsBack ⟨⟨[.morphism .apply],
        [.str "multiply", .huge, .reentrant []], some .multiply⟩, [],
        t.tick.record ⟨t.tick.steps, .pushed (.str "multiply") 0⟩⟩ [] .huge :=
      ⟨⟨_, rfl⟩, false, [], .named rfl⟩
    have hnext : Config.next (Evaluator.new .null .null).limit _ = _ :=
      Config.next_of_transition hcalls.transition
    rw [raised_reentry, Value.isShowable_huge] at hnext
    exact ⟨_, hsquare.trans
      ((runSteps_of_pushes (.literal _) (Tracer.admits_of_showable rfl) _ _ _).trans
        (runSteps_of_halted (fun h => List.cons_ne_nil _ _ h.1) hnext))⟩
  obtain ⟨t, hhalted⟩ := hrun (s := (Evaluator.new .null .null).opening _) rfl
  have hfree : (Evaluator.new .null .null).shell.inFlight = false := rfl
  have hitems : (Value.list (.literal (.reentrant []) ::
    (square ++ [.literal (.str "multiply"), .morphism .apply]))).items? = .ok _ := rfl
  have hcall := (Evaluator.evaluate_of_runSteps hfree hitems).1
  rw [Evaluator.runSteps_of_enter henter, hhalted] at hcall
  exact hcall

end Stack

end Heptad
