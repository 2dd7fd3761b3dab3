import Heptad.Proofs.Stack.Result
import Heptad.Proofs.Stack.Run
import Heptad.Proofs.Value.Showable

/-!
# The steps of a derivation

A run, seen from one of the derivations in it, begins with a part in which the
steps of this derivation are executed, those of its branches included. The part
ends where there are no further steps and the stack is looked at for a result.

* `runSteps`: this part of a run, up to the configuration at its end or to a
  failure before;
* `run_eq_runSteps`: a run is this part and what follows the configuration it
  ends in;
* `Evaluator.evaluate_of_runSteps`, `Evaluator.exists_end_of_evaluate`: how a
  call of the evaluator ends, told from where the steps of its derivation end.
-/

namespace Heptad.Stack

/-- Whether a derivation nested `depth` deep is at the end of its steps. -/
def Config.AtEnd (depth : Nat) (c : Config) : Prop := c.current.rest = [] ∧ c.depth = depth

instance (depth : Nat) (c : Config) : Decidable (c.AtEnd depth) :=
  inferInstanceAs (Decidable (_ ∧ _))

/-- The run of the steps of a derivation nested `depth` deep: the configuration
    at their end, or how the run halts before. -/
def runSteps (limit : Value) (depth : Nat) (c : Config) : Next :=
  if c.AtEnd depth then .running c
  else
    match _h : c.next limit with
    | .halted outcome session => .halted outcome session
    | .running c' => runSteps limit depth c'
termination_by c.weight
decreasing_by exact Config.next_weight_lt _h

/-- How a run that comes to this ends. -/
def Next.run (limit : Value) : Next → Except Failure Value × Session Event
  | .running c => Stack.run limit c
  | .halted outcome session => (outcome, session)

variable {limit : Value} {depth : Nat} {c c' d : Config}

theorem runSteps_of_atEnd (limit : Value) (h : c.AtEnd depth) :
    runSteps limit depth c = .running c := by
  rw [runSteps, if_pos h]

theorem runSteps_of_halted {outcome : Except Failure Value} {session : Session Event}
    (he : ¬ c.AtEnd depth) (h : c.next limit = .halted outcome session) :
    runSteps limit depth c = .halted outcome session := by
  rw [runSteps, if_neg he]
  split <;> simp_all

theorem runSteps_of_running (he : ¬ c.AtEnd depth) (h : c.next limit = .running c') :
    runSteps limit depth c = runSteps limit depth c' := by
  rw [runSteps, if_neg he]
  split <;> simp_all

/-- The first `n` transitions of the steps of a derivation. -/
def advance (limit : Value) (depth : Nat) : Nat → Config → Next
  | 0, c => .running c
  | n + 1, c =>
    if c.AtEnd depth then .running c
    else
      match c.next limit with
      | .halted outcome session => .halted outcome session
      | .running c' => advance limit depth n c'

/-- Where the steps of a derivation end that have come to this. -/
def Next.runSteps (limit : Value) (depth : Nat) : Next → Next
  | .running c => Stack.runSteps limit depth c
  | .halted outcome session => .halted outcome session

/-- The steps end where they end after some transitions. -/
theorem runSteps_eq_advance (limit : Value) (depth n : Nat) (c : Config) :
    runSteps limit depth c = (advance limit depth n c).runSteps limit depth := by
  induction n generalizing c with
  | zero => rfl
  | succ n ih =>
    rw [advance]
    split
    · rfl
    · rename_i he
      split
      · rename_i hn
        exact runSteps_of_halted he hn
      · rename_i c' hn
        exact (runSteps_of_running he hn).trans (ih c')

section

variable {rest below steps : List Value} {e t b : Value} {last : Option Primitive}
  {callers : List Pending} {s : Session Event}

/-- A conditional that chooses a sub-derivation enters it, if there is room for it. -/
theorem next_of_entered (hv : chosen b t e = .sub steps)
    (he : enter limit (callers.length + 1) = .ok ()) :
    Config.next limit ⟨⟨.morphism .cond :: rest, e :: t :: b :: below, last⟩, callers, s⟩ =
      .running ⟨.start steps, ⟨⟨rest, below, last⟩, b.truthy⟩ :: callers, s.tick⟩ :=
  Config.next_of_transition (.entered rfl rfl hv he)

/-- The steps of a sub-derivation that is entered are what the run goes on with. -/
theorem runSteps_of_entered (hv : chosen b t e = .sub steps)
    (he : enter limit (callers.length + 1) = .ok ()) :
    runSteps limit depth
        ⟨⟨.morphism .cond :: rest, e :: t :: b :: below, last⟩, callers, s⟩ =
      runSteps limit depth
        ⟨.start steps, ⟨⟨rest, below, last⟩, b.truthy⟩ :: callers, s.tick⟩ :=
  runSteps_of_running (fun h => nomatch h.1) (next_of_entered hv he)

end

/-- A step that makes the derivation move on, recorded without failing, is the first of
    those that are run. -/
theorem runSteps_of_moves {step : Value} {rest : List Value} {frame : Frame} {action : Action}
    (hr : c.current.rest = step :: rest) (hm : Config.Moves c d frame action)
    (ha : d.session.tracer.admits (d.event action) = true) :
    runSteps limit depth c = runSteps limit depth (d.moved frame action) :=
  runSteps_of_running (fun h => List.cons_ne_nil _ _ (hr.symm.trans h.1))
    (Config.next_of_transition (.moved hm ha))

/-- A step that pushes is one of them. -/
theorem runSteps_of_pushes {step v : Value} {action : Nat → Action} (hp : Pushes step v action)
    {callers : List Pending} {s : Session Event}
    (ha : s.tracer.admits ⟨s.steps, action callers.length⟩ = true) (rest stack : List Value)
    (last : Option Primitive) :
    runSteps limit depth ⟨⟨step :: rest, stack, last⟩, callers, s⟩ =
      runSteps limit depth ⟨⟨rest, v :: stack, last⟩, callers,
        s.tick.record ⟨s.tick.steps, action callers.length⟩⟩ :=
  runSteps_of_moves (c := ⟨⟨step :: rest, stack, last⟩, callers, s⟩) rfl (.pushed rfl hp) ha

/-- A step that pushes what has to be described, but cannot be, is the last of them. -/
theorem runSteps_of_undescribed {step v : Value} {action : Nat → Action}
    (hp : Pushes step v action) {callers : List Pending} {s : Session Event}
    (ha : s.tracer.admits ⟨s.steps, action callers.length⟩ = false) (rest stack : List Value)
    (last : Option Primitive) :
    ∃ t, runSteps limit depth ⟨⟨step :: rest, stack, last⟩, callers, s⟩ =
      .halted (.error (.fault .tooManyDigits)) t :=
  ⟨_, runSteps_of_halted (fun h => nomatch h.1)
    (Config.next_of_transition (.undescribed (.pushed rfl hp) ha))⟩

/-- An integer of too many digits is one of those that cannot. -/
theorem not_admits_huge {s : Session Event} (h : s.tracer.debug = true) (n depth : Nat) :
    s.tracer.admits ⟨n, .pushed .huge depth⟩ = false := by
  have hshown (v : Value) : Recorded.isShowable (⟨n, .pushed v depth⟩ : Event) = v.isShowable := rfl
  exact Tracer.admits_of_on h ((hshown .huge).trans Value.isShowable_huge)

/-! ### Products -/

/-- The steps that multiply two literals. -/
def productOf (a b : Value) : List Value :=
  [.literal a, .literal b, .literal (.str Primitive.multiply.name), .morphism .apply]

/-- Without debugging the steps of a product leave it on the stack. -/
theorem runSteps_productOf {a b w : Value} (ha : ∀ steps, a ≠ .reentrant steps)
    (hw : a.product? b = .ok w) {s : Session Event} (hs : s.tracer.debug = false)
    (rest stack : List Value) (last : Option Primitive) (callers : List Pending) :
    ∃ t, t.tracer.debug = false ∧ t.steps = s.steps + 4 ∧ t.warnings = s.warnings ∧
      runSteps limit depth ⟨⟨productOf a b ++ rest, stack, last⟩, callers, s⟩ =
        runSteps limit depth ⟨⟨rest, w :: stack, some .multiply⟩, callers, t⟩ := by
  have hpush (v : Value) (rest stack : List Value) (t : Session Event)
      (ht : t.tracer.debug = false) :
      ∃ u, u.tracer.debug = false ∧ u.steps = t.steps + 1 ∧ u.warnings = t.warnings ∧
        runSteps limit depth ⟨⟨.literal v :: rest, stack, last⟩, callers, t⟩ =
          runSteps limit depth ⟨⟨rest, v :: stack, last⟩, callers, u⟩ :=
    ⟨t.tick.record ⟨t.tick.steps, .pushed v callers.length⟩, ht, rfl, rfl,
      runSteps_of_pushes (.literal v) (Tracer.admits_of_off ht _) rest stack last⟩
  obtain ⟨s₁, hs₁, hsteps₁, hwarnings₁, hrun₁⟩ := hpush a _ stack s hs
  obtain ⟨s₂, hs₂, hsteps₂, hwarnings₂, hrun₂⟩ := hpush b _ (a :: stack) s₁ hs₁
  obtain ⟨s₃, hs₃, hsteps₃, hwarnings₃, hrun₃⟩ :=
    hpush (.str Primitive.multiply.name) (.morphism .apply :: rest) (b :: a :: stack) s₂ hs₂
  have happly : Config.Moves ⟨⟨.morphism .apply :: rest,
      .str Primitive.multiply.name :: b :: a :: stack, last⟩, callers, s₃⟩ _ _ _ :=
    .applied rfl rfl (Nat.le_add_left _ _) (call_eq_ok_iff.2 (.multiply ha hw))
  refine ⟨s₃.tick.record ⟨s₃.steps + 1, .applied .multiply [a, b] w false callers.length⟩, hs₃,
    ?_, ?_, ((hrun₁.trans hrun₂).trans hrun₃).trans
      (runSteps_of_moves rfl happly (Tracer.admits_of_off hs₃ _))⟩
  · show s₃.steps + 1 = s.steps + 4
    rw [hsteps₃, hsteps₂, hsteps₁]
  · show s₃.warnings = s.warnings
    rw [hwarnings₃, hwarnings₂, hwarnings₁]

/-- The steps that square an integer whose square has no text. -/
def square : List Value := productOf .hugeRoot .hugeRoot

/-- Without debugging the steps of the square leave it on the stack. -/
theorem runSteps_square {s : Session Event} (hs : s.tracer.debug = false)
    (rest stack : List Value) (last : Option Primitive) (callers : List Pending) :
    ∃ t, t.tracer.debug = false ∧ t.steps = s.steps + 4 ∧ t.warnings = s.warnings ∧
      runSteps limit depth ⟨⟨square ++ rest, stack, last⟩, callers, s⟩ =
        runSteps limit depth ⟨⟨rest, .huge :: stack, some .multiply⟩, callers, t⟩ :=
  runSteps_productOf Value.hugeRoot_ne_reentrant Value.product?_hugeRoot hs rest stack last callers

/-! ### Ends -/

/-- What the steps come to is the end of the derivation. -/
theorem atEnd_of_runSteps (h : runSteps limit depth c = .running d) : d.AtEnd depth := by
  induction c using runSteps.induct limit depth with
  | case1 c he =>
    rw [runSteps_of_atEnd limit he] at h
    cases h
    exact he
  | case2 c he outcome session hn =>
    rw [runSteps_of_halted he hn] at h
    cases h
  | case3 c he c' hn ih =>
    rw [runSteps_of_running he hn] at h
    exact ih h

/-- The steps lose nothing of what is on record. -/
theorem events_runSteps (limit : Value) (depth : Nat) (c : Config) :
    c.session.tracer.events <+: (runSteps limit depth c).session.tracer.events := by
  induction c using runSteps.induct limit depth with
  | case1 c he =>
    rw [runSteps_of_atEnd limit he]
    exact List.prefix_rfl
  | case2 c he outcome session hn =>
    rw [runSteps_of_halted he hn]
    exact events_of_transition (Config.next_eq_iff.1 hn)
  | case3 c he c' hn ih =>
    rw [runSteps_of_running he hn]
    exact (events_of_transition (Config.next_eq_iff.1 hn)).trans ih

/-- A run begins with the steps of any of its derivations. -/
theorem run_eq_runSteps (limit : Value) (depth : Nat) (c : Config) :
    run limit c = (runSteps limit depth c).run limit := by
  induction c using runSteps.induct limit depth with
  | case1 c he => rw [runSteps_of_atEnd limit he, Next.run]
  | case2 c he outcome session hn => rw [runSteps_of_halted he hn, run_of_halted hn, Next.run]
  | case3 c he c' hn ih => rw [runSteps_of_running he hn, run_of_running hn, ih]

/-- The steps of a derivation that nothing waits for give no result yet: what
    halts them is a failure. -/
theorem runSteps_ne_halted_ok {v : Value} {session : Session Event} :
    runSteps limit 0 c ≠ .halted (.ok v) session := by
  induction c using runSteps.induct limit 0 with
  | case1 c he =>
    rw [runSteps_of_atEnd limit he]
    exact nofun
  | case2 c he outcome session' hn =>
    rw [runSteps_of_halted he hn]
    rintro ⟨⟩
    cases Config.next_eq_iff.1 hn with
    | finished hr hv hc => exact he ⟨hr, congrArg List.length hc⟩
  | case3 c he c' hn ih =>
    rw [runSteps_of_running he hn]
    exact ih

/-- A derivation that nothing waits for results in what is at the bottom of its
    stack. -/
theorem run_of_bottom {v : Value} {session : Session Event} (limit : Value)
    (hr : c.current.rest = []) (hc : c.callers = []) (hv : c.current.stack.getLast? = some v)
    (he : c.ending = .ok session) : run limit c = (.ok v, session) :=
  run_of_halted (Config.next_of_transition (.finished hr hv hc he))

/-- A derivation fails if the warning about its stack cannot be put together. -/
theorem run_of_unwarned {v : Value} {failure : Failure} (limit : Value)
    (hr : c.current.rest = []) (hv : c.current.stack.getLast? = some v)
    (he : c.ending = .error failure) : run limit c = (.error failure, c.session) :=
  run_of_halted (Config.next_of_transition (.unwarned hr hv he))

/-- Without anything on its stack a derivation has no result. -/
theorem run_of_empty (limit : Value) (hr : c.current.rest = []) (hs : c.current.stack = []) :
    run limit c = (.error (.evaluation .noResult), c.session) :=
  run_of_halted (Config.next_of_transition (.emptied hr hs))

/-- The warning about a stack with several values, if it can be put together. -/
def Config.leftovers (c : Config) : List String :=
  if Value.areShowable c.current.stack then [Config.leftover c.current.stack] else []

namespace Evaluator

variable {e : Evaluator} {derivation : Value} {steps : List Value}

/-- Where the steps of the derivation of an admitted call end. -/
def runSteps (e : Evaluator) (steps : List Value) : Next :=
  match enter e.limit 0 with
  | .error failure => .halted (.error failure) (e.opening steps)
  | .ok () => Stack.runSteps e.limit 0 ⟨.start steps, [], e.opening steps⟩

theorem runSteps_of_enter (h : enter e.limit 0 = .ok ()) (steps : List Value) :
    e.runSteps steps = Stack.runSteps e.limit 0 ⟨.start steps, [], e.opening steps⟩ := by
  rw [runSteps, h]

/-- The steps of a call give no result yet either. -/
theorem runSteps_ne_ok {v : Value} {session : Session Event} :
    e.runSteps steps ≠ .halted (.ok v) session := by
  rw [runSteps]
  cases enter e.limit 0 with
  | error failure => exact nofun
  | ok _ => exact runSteps_ne_halted_ok

/-- An admitted call runs its steps, and then ends as they say. -/
theorem evaluate_of_runSteps (h : e.shell.inFlight = false) (hi : derivation.items? = .ok steps) :
    (e.evaluate derivation).outcome = ((e.runSteps steps).run e.limit).1 ∧
      (e.evaluate derivation).after = ⟨((e.runSteps steps).run e.limit).2.finish, e.limit⟩ := by
  have hrun : runDerivation e.limit steps (e.opening steps) = (e.runSteps steps).run e.limit := by
    rw [runDerivation, runSteps]
    cases enter e.limit 0 with
    | error failure => rfl
    | ok _ => exact run_eq_runSteps _ _ _
  rw [← hrun]
  exact evaluate_of_steps h hi

/-- A configuration at the end of the steps of a call's derivation. -/
theorem atEnd_of_runSteps (h : e.runSteps steps = .running c) :
    enter e.limit 0 = .ok () ∧
      Stack.runSteps e.limit 0 ⟨.start steps, [], e.opening steps⟩ = .running c ∧
      c.current.rest = [] ∧ c.callers = [] := by
  rw [runSteps] at h
  cases he : enter e.limit 0 with
  | error failure =>
    rw [he] at h
    cases h
  | ok _ =>
    rw [he] at h
    obtain ⟨hr, hd⟩ := Stack.atEnd_of_runSteps h
    exact ⟨rfl, h, hr, List.eq_nil_of_length_eq_zero hd⟩

/-- A call whose derivation comes to its end with something on the stack returns
    what is at the bottom. -/
theorem evaluate_of_end {v : Value} {session : Session Event} (h : e.shell.inFlight = false)
    (hi : derivation.items? = .ok steps) (hc : e.runSteps steps = .running c)
    (hv : c.current.stack.getLast? = some v) (he : c.ending = .ok session) :
    (e.evaluate derivation).outcome = .ok v ∧
      (e.evaluate derivation).after = ⟨session.finish, e.limit⟩ := by
  obtain ⟨-, -, hr, hcallers⟩ := atEnd_of_runSteps hc
  have hcall := evaluate_of_runSteps h hi
  rw [hc, Next.run, run_of_bottom e.limit hr hcallers hv he] at hcall
  exact hcall

/-- A call fails if the warning about the stack its derivation ends with cannot be put
    together. -/
theorem evaluate_of_unwarned {v : Value} {failure : Failure} (h : e.shell.inFlight = false)
    (hi : derivation.items? = .ok steps) (hc : e.runSteps steps = .running c)
    (hv : c.current.stack.getLast? = some v) (he : c.ending = .error failure) :
    (e.evaluate derivation).outcome = .error failure ∧
      (e.evaluate derivation).after = ⟨c.session.finish, e.limit⟩ := by
  obtain ⟨-, -, hr, -⟩ := atEnd_of_runSteps hc
  have hcall := evaluate_of_runSteps h hi
  rw [hc, Next.run, run_of_unwarned e.limit hr hv he] at hcall
  exact hcall

/-- A call whose derivation ends with several values left returns the one at the bottom,
    with one more warning, if all of them have a text. -/
theorem evaluate_of_leftovers {v : Value} (h : e.shell.inFlight = false)
    (hi : derivation.items? = .ok steps) (hc : e.runSteps steps = .running c)
    (hv : c.current.stack.getLast? = some v) (hlength : c.current.stack.length ≠ 1) :
    (e.evaluate derivation).outcome =
        (if Value.areShowable c.current.stack then .ok v else .error (.fault .tooManyDigits)) ∧
      (e.evaluate derivation).after.shell.steps = c.session.steps ∧
      (e.evaluate derivation).after.shell.warnings = c.session.warnings ++ c.leftovers ∧
      (e.evaluate derivation).after.shell.tracer.events =
        c.session.tracer.events ++
          c.leftovers.map fun message => ⟨c.session.steps, .warned message⟩ := by
  rcases c.ending_cases with ⟨hone, -⟩ | ⟨-, hshown, he⟩ | ⟨-, hshown, he⟩
  · exact absurd hone hlength
  · obtain ⟨houtcome, hafter⟩ := evaluate_of_end h hi hc hv he
    rw [houtcome, hafter, Config.leftovers, if_pos hshown, if_pos hshown]
    exact ⟨rfl, rfl, rfl, rfl⟩
  · obtain ⟨houtcome, hafter⟩ := evaluate_of_unwarned h hi hc hv he
    have hnot := Bool.eq_false_iff.1 hshown
    rw [houtcome, hafter, Config.leftovers, if_neg hnot, if_neg hnot, List.map_nil,
      List.append_nil, List.append_nil]
    exact ⟨rfl, rfl, rfl, rfl⟩

/-- A call that returns was admitted. -/
theorem inFlight_of_ok {v : Value} (h : (e.evaluate derivation).outcome = .ok v) :
    e.shell.inFlight = false := by
  cases hheld : e.shell.inFlight with
  | false => rfl
  | true =>
    rw [evaluate, Shell.call_of_inFlight hheld] at h
    cases h

/-- A call that returns comes to the end of its derivation's steps, and returns
    what is then at the bottom of the stack. -/
theorem exists_end_of_evaluate {v : Value} (h : e.shell.inFlight = false)
    (hi : derivation.items? = .ok steps) (hv : (e.evaluate derivation).outcome = .ok v) :
    ∃ c session, e.runSteps steps = .running c ∧ c.current.stack.getLast? = some v ∧
      c.ending = .ok session ∧ (e.evaluate derivation).after = ⟨session.finish, e.limit⟩ := by
  have houtcome := (evaluate_of_runSteps h hi).1
  cases hs : e.runSteps steps with
  | halted outcome session =>
    rw [hs, Next.run, hv] at houtcome
    obtain rfl : .ok v = outcome := houtcome
    exact absurd hs runSteps_ne_ok
  | running c =>
    cases hb : c.current.stack.getLast? with
    | none =>
      obtain ⟨-, -, hr, -⟩ := atEnd_of_runSteps hs
      rw [hs, Next.run, run_of_empty e.limit hr (List.getLast?_eq_none_iff.1 hb), hv] at houtcome
      cases houtcome
    | some w =>
      cases he : c.ending with
      | error failure => cases hv.symm.trans (evaluate_of_unwarned h hi hs hb he).1
      | ok session =>
        obtain ⟨houtcome', hafter⟩ := evaluate_of_end h hi hs hb he
        cases hv.symm.trans houtcome'
        exact ⟨c, session, rfl, hb, he, hafter⟩

end Evaluator

end Heptad.Stack
