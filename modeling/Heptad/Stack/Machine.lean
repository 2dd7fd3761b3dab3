import Heptad.Stack.Event
import Heptad.Stack.Weight

/-!
# The stack machine

A derivation runs on a stack of its own. A literal pushes its value, an
application takes the name of a primitive and its operands off the stack and
pushes the result, a conditional replaces its three operands by one of two
branches, and everything else that is a step is pushed as a token. An
application that finds no name on top applies the latest primitive of the same
derivation once more. A branch that is a sub-derivation is run on a fresh stack
before its value is pushed; meanwhile the derivation it belongs to waits.

The machine takes one transition at a time: `Config.next` says what follows a
configuration, and `run` repeats it to the end. It always ends
(`next_weight_lt`): every step that is run, also one of a sub-derivation that a
literal carries, is used up by it.
-/

namespace Heptad.Stack

-- Sums of naturals are those of the core library, whatever else is imported.
attribute [local instance (high)] Zero.ofOfNat0

/-! ## Configurations -/

/-- A derivation in progress. -/
structure Frame where
  /-- The steps still to be run. -/
  rest : List Value
  /-- The operands, the latest first. -/
  stack : List Value
  /-- The primitive applied latest. -/
  last : Option Primitive

/-- A derivation that waits for a branch of its conditional to be run. -/
structure Pending where
  frame : Frame
  condition : Bool

/-- The state of a call in progress. -/
structure Config where
  /-- The derivation being run. -/
  current : Frame
  /-- The derivations waiting for it, innermost first. -/
  callers : List Pending
  session : Session Event

/-- What follows a configuration. -/
inductive Next where
  /-- Another configuration. -/
  | running (c : Config)
  /-- The end of the run. -/
  | halted (outcome : Except Failure Value) (session : Session Event)

/-- A derivation about to be run. -/
def Frame.start (steps : List Value) : Frame := ⟨steps, [], none⟩

namespace Frame

/-- The steps a derivation in progress can still cause to be run. -/
def weight (f : Frame) : Nat := stepsWeight f.rest + stackWeight f.stack

/-- A frame with its stack replaced. -/
def withStack (f : Frame) (stack : List Value) : Frame := { f with stack }

end Frame

namespace Config

/-- How many conditionals the current derivation is nested in. -/
def depth (c : Config) : Nat := c.callers.length

/-- A bound on the transitions still to come: two for each step that can be
    run, and one for each waiting derivation. -/
def weight (c : Config) : Nat :=
  2 * (c.current.weight + (c.callers.map fun p => p.frame.weight).sum) + c.callers.length

/-- The end of a run for a reason of its own. -/
def fail (c : Config) (e : EvalError) : Next := .halted (.error e.raised) c.session

/-- What a transition of the current derivation puts on record. -/
def event (c : Config) (action : Action) : Event := ⟨c.session.steps, action⟩

/-- The configuration after a transition of the current derivation. -/
def moved (c : Config) (frame : Frame) (action : Action) : Config :=
  { c with current := frame, session := c.session.record (c.event action) }

/-- What follows a transition of the current derivation. The run ends with one that is
    on record, but cannot be described where it has to be. -/
def proceed (c : Config) (frame : Frame) (action : Action) : Next :=
  if c.session.tracer.admits (c.event action) then .running (c.moved frame action)
  else .halted (.error (.fault .tooManyDigits)) (c.moved frame action).session

end Config

/-- Whether a derivation may be entered at a depth. -/
def enter (limit : Value) (depth : Nat) : Except Failure Unit :=
  match (Value.int depth).gt? limit with
  | .error f => .error (.fault f)
  | .ok true => .error (EvalError.tooDeep depth limit).raised
  | .ok false => .ok ()

/-! ## Transitions -/

/-- What an application on this stack applies: the primitive, whether that is
    implicit, and the operands beneath. -/
def target (stack : List Value) (last : Option Primitive) :
    Except EvalError (Primitive × Bool × List Value) :=
  match stack with
  | [] => .error .emptyStack
  | top :: below =>
    match top, last with
    | .str name, _ =>
      match Primitive.ofName? name with
      | some p => .ok (p, false, below)
      | none => .error (.noPrimitive name)
    -- what is on top is then an operand
    | _, some p => .ok (p, true, stack)
    | _, none => .error (.notAPrimitive top)

namespace Config

/-- The application of a primitive, after the step has been taken off. -/
def apply (c : Config) (rest : List Value) : Next :=
  match target c.current.stack c.current.last with
  | .error e => c.fail e
  | .ok (p, implicit, operands) =>
    if operands.length < p.arity then
      c.fail (.missingOperands p.name p.arity operands.length)
    else
      let args := (operands.take p.arity).reverse
      match p.call c.session.callback args with
      | .error cause => c.fail (.primitiveFailed p.name args cause)
      | .ok result =>
        c.proceed ⟨rest, result :: operands.drop p.arity, some p⟩
          (.applied p args result implicit c.depth)

/-- The decision of a conditional, after the step has been taken off. -/
def choose (limit : Value) (c : Config) (rest : List Value) : Next :=
  match c.current.stack with
  | elseBranch :: thenBranch :: condition :: below =>
    -- the three operands are gone before the branch is looked at
    let frame : Frame := ⟨rest, below, c.current.last⟩
    let chosen := if condition.truthy then thenBranch else elseBranch
    match chosen with
    | .sub steps =>
      match enter limit (c.depth + 1) with
      | .error e => .halted (.error e) c.session
      | .ok () =>
        .running ⟨.start steps, ⟨frame, condition.truthy⟩ :: c.callers, c.session⟩
    | v =>
      c.proceed (frame.withStack (v :: below)) (.decided condition.truthy false v c.depth)
  | few => c.fail (.condOperands few.length)

/-- The execution of a step, after it has been counted. -/
def execute (limit : Value) (c : Config) (step : Value) (rest : List Value) : Next :=
  match step with
  | .literal v =>
    c.proceed { c.current with rest, stack := v :: c.current.stack } (.pushed v c.depth)
  | .morphism .apply => c.apply rest
  | .morphism .cond => c.choose limit rest
  | .morphism m =>
    c.proceed { c.current with rest, stack := .morphism m :: c.current.stack } (.passed m c.depth)
  | .sub steps =>
    c.proceed { c.current with rest, stack := .sub steps :: c.current.stack }
      (.passedSub steps.length c.depth)
  | other => c.fail (.notAStep c.session.steps other)

/-- The warning that more than one value is left on a stack. -/
def leftover (stack : List Value) : String :=
  s!"Stack did not end with a single value. Final stack: {(Value.list stack.reverse).repr}"

/-- The session after that warning. -/
def warnLeftover (c : Config) : Session Event :=
  let message := leftover c.current.stack
  c.session.warn message (c.event (.warned message))

/-- The session at the end of the current derivation, with the warning if more than one
    value is left; then all of them are shown. -/
def ending (c : Config) : Except Failure (Session Event) :=
  if c.current.stack.length = 1 then .ok c.session
  else if Value.areShowable c.current.stack then .ok c.warnLeftover
  else .error (.fault .tooManyDigits)

/-- The end of the current derivation: the value at the bottom of its stack
    goes to the one that waits for it, or is the result of the run. -/
def finish (c : Config) : Next :=
  match c.current.stack.getLast? with
  | none => c.fail .noResult
  | some v =>
    match c.ending with
    | .error e => .halted (.error e) c.session
    | .ok session =>
      match c.callers with
      | [] => .halted (.ok v) session
      -- the conditional is on record only now, with the number of the latest step
      | p :: callers =>
        Config.proceed ⟨c.current, callers, session⟩ (p.frame.withStack (v :: p.frame.stack))
          (.decided p.condition true v callers.length)

/-- What follows a configuration. -/
def next (limit : Value) (c : Config) : Next :=
  match c.current.rest with
  | [] => c.finish
  | step :: rest => { c with session := c.session.tick }.execute limit step rest

end Config

/-! ## Termination -/

/-- What an application finds beneath the name is part of the stack. -/
theorem stackWeight_target_le {stack operands : List Value} {last : Option Primitive}
    {p : Primitive} {implicit : Bool} (h : target stack last = .ok (p, implicit, operands)) :
    stackWeight operands ≤ stackWeight stack := by
  unfold target at h
  split at h
  · cases h
  · split at h
    · split at h
      · cases h
        rw [stackWeight_cons]
        omega
      · cases h
    · cases h
      exact Nat.le_refl _
    · cases h

namespace Config

theorem eq_moved_of_proceed {c c' : Config} {frame : Frame} {action : Action}
    (h : c.proceed frame action = .running c') : c' = c.moved frame action := by
  unfold proceed at h
  split at h
  · exact (Next.running.inj h).symm
  · cases h

theorem weight_proceed {c : Config} {frame : Frame} {action : Action} {c' : Config}
    (h : c.proceed frame action = .running c') (hw : frame.weight < c.current.weight) :
    c'.weight < c.weight := by
  obtain rfl := eq_moved_of_proceed h
  simp only [weight, moved]
  omega

theorem weight_apply {c c' : Config} {step : Value} {rest : List Value}
    (hc : c.current.rest = step :: rest) (h : c.apply rest = .running c') :
    c'.weight < c.weight := by
  unfold apply at h
  split at h
  · cases h
  · rename_i p implicit operands ht
    split at h
    · cases h
    · simp only at h
      split at h
      · cases h
      · rename_i result hr
        apply weight_proceed h
        have h1 := stackWeight_target_le ht
        have h2 := stackWeight_drop_le p.arity operands
        have h3 := stepWeight_pos step
        simp only [Frame.weight, hc, stepsWeight, stackWeight_cons, pushWeight_of_call hr]
        omega

theorem weight_choose {c c' : Config} {limit step : Value} {rest : List Value}
    (hc : c.current.rest = step :: rest) (h : c.choose limit rest = .running c') :
    c'.weight < c.weight := by
  have hs := stepWeight_pos step
  unfold choose at h
  split at h
  · rename_i e t b below hstack
    simp only at h
    split at h
    · rename_i steps hchosen
      -- the branch that is run was one of the operands
      have hle : stepsWeight steps ≤ pushWeight e + pushWeight t := by
        have : stepsWeight steps = pushWeight (if b.truthy then t else e) := by
          rw [hchosen, pushWeight]
        rw [this]
        split <;> omega
      split at h
      · cases h
      · cases h
        simp only [weight, Frame.weight, Frame.start, hc, hstack, stepsWeight, stackWeight,
          List.map_cons, List.sum_cons, List.length_cons, List.map_nil, List.sum_nil]
        omega
    · rename_i v hv hchosen
      apply weight_proceed h
      have hle : pushWeight (if b.truthy then t else e) ≤ pushWeight e + pushWeight t := by
        split <;> omega
      simp only [Frame.weight, Frame.withStack, hc, hstack, stepsWeight, stackWeight_cons]
      omega
  · cases h

theorem weight_execute {c c' : Config} {limit step : Value} {rest : List Value}
    (hc : c.current.rest = step :: rest) (h : c.execute limit step rest = .running c') :
    c'.weight < c.weight := by
  unfold execute at h
  split at h
  · apply weight_proceed h
    simp only [Frame.weight, hc, stepsWeight, stackWeight_cons, stepWeight]
    omega
  · exact weight_apply hc h
  · exact weight_choose hc h
  · apply weight_proceed h
    simp only [Frame.weight, hc, stepsWeight, stackWeight_cons, stepWeight, pushWeight]
    omega
  · apply weight_proceed h
    simp only [Frame.weight, hc, stepsWeight, stackWeight_cons, stepWeight, pushWeight]
    omega
  · cases h

theorem weight_finish {c c' : Config} (hc : c.current.rest = []) (h : c.finish = .running c') :
    c'.weight < c.weight := by
  unfold finish at h
  split at h
  · cases h
  · rename_i v hv
    split at h
    · cases h
    split at h
    · cases h
    · rename_i p callers hcallers
      obtain rfl := eq_moved_of_proceed h
      have hle := pushWeight_le_stackWeight (List.mem_of_getLast? hv)
      simp only [weight, moved, Frame.weight, Frame.withStack, hc, hcallers, stackWeight_cons,
        List.map_cons, List.sum_cons, List.length_cons, stepsWeight]
      omega

/-- A transition uses up weight. -/
theorem next_weight_lt {c c' : Config} {limit : Value} (h : c.next limit = .running c') :
    c'.weight < c.weight := by
  unfold next at h
  split at h
  · rename_i hc
    exact weight_finish hc h
  · rename_i step rest hc
    exact weight_execute (c := { c with session := c.session.tick }) hc h

end Config

/-! ## Runs -/

/-- A run from a configuration to its end. -/
def run (limit : Value) (c : Config) : Except Failure Value × Session Event :=
  match _h : c.next limit with
  | .halted outcome session => (outcome, session)
  | .running c' => run limit c'
termination_by c.weight
decreasing_by exact Config.next_weight_lt _h

theorem run_of_halted {limit : Value} {c : Config} {outcome : Except Failure Value}
    {session : Session Event} (h : c.next limit = .halted outcome session) :
    run limit c = (outcome, session) := by
  rw [run]
  split <;> simp_all

theorem run_of_running {limit : Value} {c c' : Config} (h : c.next limit = .running c') :
    run limit c = run limit c' := by
  rw [run]
  split <;> simp_all

/-- The run of a derivation from an empty stack. -/
def runDerivation (limit : Value) (steps : List Value) (session : Session Event) :
    Except Failure Value × Session Event :=
  match enter limit 0 with
  | .error e => (.error e, session)
  | .ok () => run limit ⟨.start steps, [], session⟩

end Heptad.Stack
