import Heptad.Proofs.Session
import Heptad.Proofs.Stack.Occurrence
import Heptad.Proofs.Stack.Transition

/-!
# What a run executes

Beside a configuration goes a record of *origins*: where each derivation in
progress stands, how far it is, and which step brought up each of its operands.
The machine does not look at it. It says which occurrence of a step is meant
when the machine executes one:

* `executions`: the steps a run executes, those of sub-derivations included, in
  the order in which they are begun and with their places;
* `steps_run`: the count of steps goes up by their number;
* `Evaluator.evaluate_of_steps`: how a call of the evaluator is a run from a
  fresh session.
-/

namespace Heptad.Stack

/-! ## Origins -/

/-- Where a derivation in progress stands, the number of its next step, and for
    each of its operands the place of the step that brought it up. -/
structure Origin where
  place : Place
  next : Nat
  operands : List Place

namespace Origin

/-- The place of the next step. -/
def here (o : Origin) : Place := o.place ++ [o.next]

/-- The origin behind the next step, with other operands. -/
def advance (o : Origin) (operands : List Place) : Origin := ⟨o.place, o.next + 1, operands⟩

end Origin

/-- The origins of the current derivation and of those waiting for it. -/
structure Origins where
  current : Origin
  callers : List Origin

namespace Origins

/-- The origins of a derivation about to be run. -/
def start : Origins := ⟨⟨[], 0, []⟩, []⟩

/-- A step brings up its own value. -/
def push (o : Origins) : Origins :=
  { o with current := o.current.advance (o.current.here :: o.current.operands) }

/-- An application brings up the result, in the place of the operands and, unless
    it is implicit, of the name. -/
def apply (f : Frame) (o : Origins) : Origins :=
  match target f.stack f.last with
  | .error _ => o
  | .ok (p, implicit, _) =>
    let taken := if implicit then p.arity else p.arity + 1
    { o with current := o.current.advance (o.current.here :: o.current.operands.drop taken) }

/-- A conditional leaves the branch it chooses on the stack, or enters it where
    it stands. -/
def choose (f : Frame) (o : Origins) : Origins :=
  match f.stack, o.current.operands with
  | e :: t :: b :: _, elseOrigin :: thenOrigin :: _ :: below =>
    let origin := if b.truthy then thenOrigin else elseOrigin
    match chosen b t e with
    | .sub _ => ⟨⟨origin, 0, []⟩, o.current.advance below :: o.callers⟩
    | _ => { o with current := o.current.advance (origin :: below) }
  | _, _ => o

/-- A derivation that waits gets the value at the bottom of the stack. -/
def giveBack (o : Origins) : Origins :=
  match o.callers with
  | [] => o
  | caller :: callers =>
    ⟨{ caller with operands := o.current.operands.getLast?.getD [] :: caller.operands }, callers⟩

/-- The origins after a transition. -/
def follow (c : Config) (o : Origins) : Origins :=
  match c.current.rest with
  | [] => o.giveBack
  | .morphism .apply :: _ => o.apply c.current
  | .morphism .cond :: _ => o.choose c.current
  | _ :: _ => o.push

end Origins

/-! ## Executed steps -/

/-- The step a configuration is about to execute; none at the end of a derivation. -/
def Config.executed (c : Config) (o : Origins) : List (Place × Value) :=
  (c.current.rest.take 1).map fun step => (o.current.here, step)

/-- The steps a run executes. -/
def executions (limit : Value) (c : Config) (o : Origins) : List (Place × Value) :=
  match _h : c.next limit with
  | .halted _ _ => c.executed o
  | .running c' => c.executed o ++ executions limit c' (o.follow c)
termination_by c.weight
decreasing_by exact Config.next_weight_lt _h

variable {limit : Value} {c c' : Config} {o : Origins}

theorem executions_of_halted {outcome : Except Failure Value} {session : Session Event}
    (h : c.next limit = .halted outcome session) (o : Origins) :
    executions limit c o = c.executed o := by
  rw [executions]
  split <;> simp_all

theorem executions_of_running (h : c.next limit = .running c') (o : Origins) :
    executions limit c o = c.executed o ++ executions limit c' (o.follow c) := by
  rw [executions]
  split <;> simp_all

theorem executed_of_cons {step : Value} {rest : List Value} (h : c.current.rest = step :: rest)
    (o : Origins) : c.executed o = [(o.current.here, step)] := by
  rw [Config.executed, h]
  rfl

theorem executed_of_nil (h : c.current.rest = []) (o : Origins) : c.executed o = [] := by
  rw [Config.executed, h]
  rfl

/-! ## The count of steps -/

/-- The warning about a stack leaves the count alone. -/
theorem Config.steps_of_ending {session : Session Event} (h : c.ending = .ok session) :
    session.steps = c.session.steps := by
  rcases c.ending_cases with ⟨-, he⟩ | ⟨-, -, he⟩ | ⟨-, -, he⟩ <;> cases h.symm.trans he <;> rfl

/-- The session of what follows a configuration. -/
def Next.session : Next → Session Event
  | .running c => c.session
  | .halted _ session => session

/-- A derivation that moves on counts the step it executes. -/
theorem steps_of_moves {d : Config} {frame : Frame} {action : Action}
    (h : Config.Moves c d frame action) (o : Origins) :
    d.session.steps = c.session.steps + (c.executed o).length := by
  cases h with
  | pushed hr | applied hr | decided hr =>
    rw [executed_of_cons hr]
    rfl
  | returned hr hv hc he =>
    rw [executed_of_nil hr]
    exact c.steps_of_ending he

/-- A transition counts the step it executes. -/
theorem steps_of_transition {n : Next} (h : Config.Transition limit c n) (o : Origins) :
    n.session.steps = c.session.steps + (c.executed o).length := by
  cases h with
  | moved hm | undescribed hm => exact steps_of_moves hm o
  | entered hr | failed hr =>
    rw [executed_of_cons hr]
    rfl
  | finished hr hv hc he =>
    rw [executed_of_nil hr]
    exact c.steps_of_ending he
  | unwarned hr | emptied hr =>
    rw [executed_of_nil hr]
    rfl

/-- A run counts the steps it executes. -/
theorem steps_run (limit : Value) (c : Config) (o : Origins) :
    (run limit c).2.steps = c.session.steps + (executions limit c o).length := by
  induction c using run.induct limit generalizing o with
  | case1 c outcome session h =>
    rw [run_of_halted h, executions_of_halted h]
    exact steps_of_transition (Config.next_eq_iff.1 h) o
  | case2 c c' h ih =>
    have hc : c'.session.steps = c.session.steps + (c.executed o).length :=
      steps_of_transition (Config.next_eq_iff.1 h) o
    rw [run_of_running h, executions_of_running h, ih, hc, List.length_append, Nat.add_assoc]

/-! ## The trace -/

/-- Nothing that is on record is lost at the end of a derivation. -/
theorem Config.events_of_ending {session : Session Event} (h : c.ending = .ok session) :
    c.session.tracer.events <+: session.tracer.events := by
  rcases c.ending_cases with ⟨-, he⟩ | ⟨-, -, he⟩ | ⟨-, -, he⟩ <;> cases h.symm.trans he
  · exact List.prefix_rfl
  · exact List.prefix_append _ _

/-- A transition loses nothing of what is on record. -/
theorem events_of_transition {n : Next} (h : Config.Transition limit c n) :
    c.session.tracer.events <+: n.session.tracer.events := by
  cases h with
  | @moved d frame action hm | @undescribed d frame action hm =>
    have hd : c.session.tracer.events <+: d.session.tracer.events := by
      cases hm with
      | pushed | applied | decided => exact List.prefix_rfl
      | returned hr hv hc he => exact Config.events_of_ending he
    exact hd.trans (List.prefix_append _ _)
  | finished hr hv hc he => exact Config.events_of_ending he
  | entered | failed | unwarned | emptied => exact List.prefix_rfl

/-- A run loses nothing of what is on record. -/
theorem events_of_run {outcome : Except Failure Value} {t : Session Event}
    (h : run limit c = (outcome, t)) : c.session.tracer.events <+: t.tracer.events := by
  induction c using run.induct limit with
  | case1 c outcome' session hn =>
    obtain ⟨-, rfl⟩ := Prod.mk.inj ((run_of_halted hn).symm.trans h)
    exact events_of_transition (Config.next_eq_iff.1 hn)
  | case2 c c' hn ih =>
    exact (events_of_transition (Config.next_eq_iff.1 hn)).trans
      (ih ((run_of_running hn).symm.trans h))

/-! ## Calls -/

namespace Evaluator

/-- The session in which an admitted call runs its steps. -/
def opening (e : Evaluator) (steps : List Value) : Session Event :=
  e.shell.opening.note s!"Evaluating derivation ({steps.length} steps)..."

/-- A call made with steps while the guard is free runs them in a fresh session,
    and keeps what the run leaves. -/
theorem evaluate_of_steps {e : Evaluator} (h : e.shell.inFlight = false) {derivation : Value}
    {steps : List Value} (hi : derivation.items? = .ok steps) :
    (e.evaluate derivation).outcome = (runDerivation e.limit steps (e.opening steps)).1 ∧
      (e.evaluate derivation).after =
        ⟨(runDerivation e.limit steps (e.opening steps)).2.finish, e.limit⟩ := by
  rw [evaluate, Shell.call_of_steps h hi, strategy]
  rw [show e.shell.opening.note s!"Evaluating derivation ({steps.length} steps)..." =
    e.opening steps from rfl]
  rcases runDerivation e.limit steps (e.opening steps) with ⟨failure | v, session⟩
  · exact ⟨rfl, rfl⟩
  · exact ⟨rfl, rfl⟩

/-- The steps an admitted call executes; none if its limit does not even allow
    the derivation itself. -/
def executions (e : Evaluator) (steps : List Value) : List (Place × Value) :=
  match enter e.limit 0 with
  | .error _ => []
  | .ok () => Stack.executions e.limit ⟨.start steps, [], e.opening steps⟩ .start

/-- A call counts the steps it executes. -/
theorem steps_evaluate {e : Evaluator} (h : e.shell.inFlight = false) {derivation : Value}
    {steps : List Value} (hi : derivation.items? = .ok steps) :
    (e.evaluate derivation).after.shell.steps = (e.executions steps).length := by
  rw [(evaluate_of_steps h hi).2, runDerivation, executions]
  cases enter e.limit 0 with
  | error failure => rfl
  | ok _ => exact (steps_run e.limit _ .start).trans (Nat.zero_add _)

end Evaluator

end Heptad.Stack
