import Heptad.Stack.Evaluator

/-!
# What a transition of the stack machine can do

The transitions of the machine as rules, one for each thing that can happen to
a derivation in progress. A step that is counted is pushed, applied, decided or
entered, or it fails; a derivation without further steps returns to the one that
waits for it, finishes the run, or has nothing to give. What is put on record has to
be described when debugging is on, and a stack with several values left has to be
shown; if that cannot be done the run fails.

* `Moves`: what makes a derivation move on and is put on record;
* `next_eq_iff`: the rules say exactly what `Config.next` computes, so that a
  proof about transitions is one case for each rule;
* `ending_cases`: what is at the end of a derivation.
-/

namespace Heptad.Stack

/-! ## Steps -/

/-- A step that pushes a value and nothing else, and what is recorded of it at
    a depth. -/
inductive Pushes : Value → Value → (Nat → Action) → Prop
  | literal (v : Value) : Pushes (.literal v) v (.pushed v)
  | morphism {m : Morphism} : m ≠ .apply → m ≠ .cond →
      Pushes (.morphism m) (.morphism m) (.passed m)
  | sub (steps : List Value) : Pushes (.sub steps) (.sub steps) (.passedSub steps.length)

/-- Whether a push can be described does not depend on the depth. -/
theorem Pushes.isShowable_eq {step v : Value} {action : Nat → Action} (h : Pushes step v action)
    (i j : Nat) : (action i).isShowable = (action j).isShowable := by
  cases h <;> rfl

/-- Whether a value is a step of the stack language. -/
def isStep : Value → Bool
  | .literal _ | .morphism _ | .sub _ => true
  | _ => false

/-- The branch a conditional chooses. -/
def chosen (condition thenBranch elseBranch : Value) : Value :=
  if condition.truthy then thenBranch else elseBranch

/-- What an application applies, in two rules: the primitive that is named on
    top of the stack, or the latest one once more. -/
inductive Targets : List Value → Option Primitive → Primitive → Bool → List Value → Prop
  | named {name : String} {below : List Value} {last : Option Primitive} {p : Primitive} :
      Primitive.ofName? name = some p → Targets (.str name :: below) last p false below
  | again {top : Value} {below : List Value} {p : Primitive} :
      (∀ name, top ≠ .str name) → Targets (top :: below) (some p) p true (top :: below)

/-- The rules say exactly what is applied. -/
theorem target_eq_ok_iff {stack operands : List Value} {last : Option Primitive} {p : Primitive}
    {implicit : Bool} :
    target stack last = .ok (p, implicit, operands) ↔ Targets stack last p implicit operands := by
  constructor
  · intro h
    rw [target.eq_def] at h
    split at h
    · cases h
    · split at h
      · split at h
        · cases h
          exact .named ‹_›
        · cases h
      · rename_i hname
        cases h
        exact .again fun name hn => hname name hn
      · cases h
  · intro h
    cases h with
    | named hp => rw [target, hp]
    | again hname =>
      rw [target.eq_def]
      dsimp only
      split
      · exact absurd rfl (hname _)
      · rename_i h
        cases h
        rfl
      · rename_i h
        cases h

/-- The operands an application finds are on the stack. -/
theorem Targets.subset {stack operands : List Value} {last : Option Primitive} {p : Primitive}
    {implicit : Bool} (h : Targets stack last p implicit operands) : operands ⊆ stack := by
  cases h with
  | named => exact List.subset_cons_self _ _
  | again => exact List.Subset.refl _

/-- The reasons for which nothing is found to apply. -/
theorem target_eq_error {stack : List Value} {last : Option Primitive} {e : EvalError}
    (h : target stack last = .error e) :
    e = .emptyStack ∨ (∃ name, e = .noPrimitive name) ∨ ∃ top, e = .notAPrimitive top := by
  rw [target.eq_def] at h
  split at h
  · cases h
    exact .inl rfl
  · split at h
    · split at h
      · cases h
      · cases h
        exact .inr (.inl ⟨_, rfl⟩)
    · cases h
    · cases h
      exact .inr (.inr ⟨_, rfl⟩)

/-! ## Rules -/

namespace Config

/-- A configuration whose next step has been counted. -/
def ticked (c : Config) : Config := { c with session := c.session.tick }

/-- The arguments of a primitive among its operands, in the order of pushing. -/
def arguments (p : Primitive) (operands : List Value) : List Value :=
  (operands.take p.arity).reverse

/-- The reasons for which a step that has been counted fails. -/
inductive Fails (limit : Value) (c : Config) : Value → Failure → Prop
  | target {e : EvalError} : target c.current.stack c.current.last = .error e →
      Fails limit c (.morphism .apply) e.raised
  | operands {p : Primitive} {implicit : Bool} {operands : List Value} :
      Stack.target c.current.stack c.current.last = .ok (p, implicit, operands) →
      operands.length < p.arity →
      Fails limit c (.morphism .apply)
        (EvalError.missingOperands p.name p.arity operands.length).raised
  | primitive {p : Primitive} {implicit : Bool} {operands : List Value} {cause : Failure} :
      Stack.target c.current.stack c.current.last = .ok (p, implicit, operands) →
      p.arity ≤ operands.length →
      p.call c.session.callback (arguments p operands) = .error cause →
      Fails limit c (.morphism .apply)
        (EvalError.primitiveFailed p.name (arguments p operands) cause).raised
  | condOperands : c.current.stack.length < 3 →
      Fails limit c (.morphism .cond) (EvalError.condOperands c.current.stack.length).raised
  | nesting {e t b : Value} {below steps : List Value} {failure : Failure} :
      c.current.stack = e :: t :: b :: below → chosen b t e = .sub steps →
      enter limit (c.depth + 1) = .error failure →
      Fails limit c (.morphism .cond) failure
  | notAStep {step : Value} : isStep step = false →
      Fails limit c step (EvalError.notAStep c.session.steps step).raised

/-- What makes a derivation move on, and is put on record: to which frame, by what
    action, and from which configuration, in which the step has been counted or the
    derivation that was waited for is gone. -/
inductive Moves (c : Config) : Config → Frame → Action → Prop
  | pushed {step v : Value} {rest : List Value} {action : Nat → Action} :
      c.current.rest = step :: rest → Pushes step v action →
      Moves c c.ticked ⟨rest, v :: c.current.stack, c.current.last⟩ (action c.depth)
  | applied {rest operands : List Value} {p : Primitive} {implicit : Bool} {result : Value} :
      c.current.rest = .morphism .apply :: rest →
      target c.current.stack c.current.last = .ok (p, implicit, operands) →
      p.arity ≤ operands.length →
      p.call c.ticked.session.callback (arguments p operands) = .ok result →
      Moves c c.ticked ⟨rest, result :: operands.drop p.arity, some p⟩
        (.applied p (arguments p operands) result implicit c.depth)
  | decided {rest below : List Value} {e t b : Value} :
      c.current.rest = .morphism .cond :: rest → c.current.stack = e :: t :: b :: below →
      (∀ steps, chosen b t e ≠ .sub steps) →
      Moves c c.ticked ⟨rest, chosen b t e :: below, c.current.last⟩
        (.decided b.truthy false (chosen b t e) c.depth)
  | returned {p : Pending} {callers : List Pending} {v : Value} {session : Session Event} :
      c.current.rest = [] → c.current.stack.getLast? = some v → c.callers = p :: callers →
      c.ending = .ok session →
      Moves c ⟨c.current, callers, session⟩ ⟨p.frame.rest, v :: p.frame.stack, p.frame.last⟩
        (.decided p.condition true v callers.length)

/-- What follows a configuration, rule by rule. -/
inductive Transition (limit : Value) (c : Config) : Next → Prop
  | moved {d : Config} {frame : Frame} {action : Action} :
      Moves c d frame action → d.session.tracer.admits (d.event action) = true →
      Transition limit c (.running (d.moved frame action))
  | undescribed {d : Config} {frame : Frame} {action : Action} :
      Moves c d frame action → d.session.tracer.admits (d.event action) = false →
      Transition limit c (.halted (.error (.fault .tooManyDigits)) (d.moved frame action).session)
  | entered {rest below steps : List Value} {e t b : Value} :
      c.current.rest = .morphism .cond :: rest → c.current.stack = e :: t :: b :: below →
      chosen b t e = .sub steps → enter limit (c.depth + 1) = .ok () →
      Transition limit c
        (.running ⟨.start steps, ⟨⟨rest, below, c.current.last⟩, b.truthy⟩ :: c.callers,
          c.ticked.session⟩)
  | failed {step : Value} {rest : List Value} {failure : Failure} :
      c.current.rest = step :: rest → Fails limit c.ticked step failure →
      Transition limit c (.halted (.error failure) c.ticked.session)
  | finished {v : Value} {session : Session Event} :
      c.current.rest = [] → c.current.stack.getLast? = some v → c.callers = [] →
      c.ending = .ok session →
      Transition limit c (.halted (.ok v) session)
  | unwarned {v : Value} {failure : Failure} :
      c.current.rest = [] → c.current.stack.getLast? = some v → c.ending = .error failure →
      Transition limit c (.halted (.error failure) c.session)
  | emptied : c.current.rest = [] → c.current.stack = [] →
      Transition limit c (.halted (.error (.evaluation .noResult)) c.session)

/-! ## The rules are what is computed -/

variable {limit : Value} {c : Config}

theorem next_of_nil (h : c.current.rest = []) : c.next limit = c.finish := by
  rw [next, h]

theorem next_of_cons {step : Value} {rest : List Value} (h : c.current.rest = step :: rest) :
    c.next limit = c.ticked.execute limit step rest := by
  rw [next, h]
  rfl

theorem execute_of_pushes {step v : Value} {action : Nat → Action} (h : Pushes step v action)
    (rest : List Value) :
    c.execute limit step rest =
      c.proceed ⟨rest, v :: c.current.stack, c.current.last⟩ (action c.depth) := by
  cases h with
  | literal | sub => rfl
  | @morphism m ha hc =>
    cases m with
    | apply => exact absurd rfl ha
    | cond => exact absurd rfl hc
    | identity | lambda | conj | neg | pair => rfl

theorem apply_of_target {p : Primitive} {implicit : Bool} {operands : List Value}
    (ht : target c.current.stack c.current.last = .ok (p, implicit, operands))
    (ha : p.arity ≤ operands.length) (rest : List Value) :
    c.apply rest =
      match p.call c.session.callback (arguments p operands) with
      | .error cause => c.fail (.primitiveFailed p.name (arguments p operands) cause)
      | .ok result =>
        c.proceed ⟨rest, result :: operands.drop p.arity, some p⟩
          (.applied p (arguments p operands) result implicit c.depth) := by
  rw [apply, ht]
  exact if_neg (Nat.not_lt.2 ha)

theorem choose_of_stack {e t b : Value} {below : List Value}
    (hs : c.current.stack = e :: t :: b :: below) (rest : List Value) :
    c.choose limit rest =
      match chosen b t e with
      | .sub steps =>
        match enter limit (c.depth + 1) with
        | .error failure => .halted (.error failure) c.session
        | .ok () =>
          .running ⟨.start steps, ⟨⟨rest, below, c.current.last⟩, b.truthy⟩ :: c.callers, c.session⟩
      | v => c.proceed ⟨rest, v :: below, c.current.last⟩ (.decided b.truthy false v c.depth) := by
  rw [choose, hs]
  rfl

theorem execute_of_fails {step : Value} {failure : Failure} (h : Fails limit c step failure)
    (rest : List Value) :
    c.execute limit step rest = .halted (.error failure) c.session := by
  cases h with
  | target ht => rw [execute, apply, ht]; rfl
  | operands ht hl =>
    rw [execute, apply, ht]
    exact if_pos hl
  | primitive ht hl hc => rw [execute, apply_of_target ht hl, hc]; rfl
  | condOperands hl =>
    rw [execute, choose]
    match hs : c.current.stack with
    | [] | [_] | [_, _] => rfl
    | _ :: _ :: _ :: _ =>
      rw [hs] at hl
      simp only [List.length_cons] at hl
      omega
  | nesting hs hv he => rw [execute, choose_of_stack hs, hv, he]
  | notAStep hs =>
    cases step with
    | literal | morphism | sub => cases hs
    | null | bool | int | float | str | bytes | list | tuple | mapping | noRule | reentrant => rfl

/-- Where a derivation moves on, that is what is computed. -/
theorem next_of_moves {d : Config} {frame : Frame} {action : Action} (h : Moves c d frame action) :
    c.next limit = d.proceed frame action := by
  cases h with
  | pushed hr hp => rw [next_of_cons hr, execute_of_pushes hp]; rfl
  | applied hr ht hl hc =>
    rw [next_of_cons hr, execute, apply_of_target (c := c.ticked) ht hl, hc]
    rfl
  | decided hr hs hv =>
    rw [next_of_cons hr, execute, choose_of_stack (c := c.ticked) hs]
    split
    · rename_i steps h
      exact absurd h (hv steps)
    · rfl
  | returned hr hv hc he => rw [next_of_nil hr, finish, hv, he, hc]; rfl

/-- Every rule says what is computed. -/
theorem next_of_transition {n : Next} (h : Transition limit c n) : c.next limit = n := by
  cases h with
  | moved hm ha => rw [next_of_moves hm, proceed, if_pos ha]
  | undescribed hm ha => rw [next_of_moves hm, proceed, if_neg (Bool.eq_false_iff.1 ha)]
  | entered hr hs hv he =>
    have he' : enter limit (c.ticked.depth + 1) = .ok () := he
    rw [next_of_cons hr, execute, choose_of_stack (c := c.ticked) hs, hv, he']
    rfl
  | failed hr hf => rw [next_of_cons hr, execute_of_fails hf]
  | finished hr hv hc he => rw [next_of_nil hr, finish, hv, he, hc]
  | unwarned hr hv he => rw [next_of_nil hr, finish, hv, he]
  | emptied hr hs => rw [next_of_nil hr, finish, hs]; rfl

/-- A derivation that moves on does so by one of two rules. -/
theorem exists_transition_of_moves {d : Config} {frame : Frame} {action : Action}
    (h : Moves c d frame action) : ∃ n, Transition limit c n := by
  cases ha : d.session.tracer.admits (d.event action) with
  | true => exact ⟨_, .moved h ha⟩
  | false => exact ⟨_, .undescribed h ha⟩

/-- What is computed follows one of the rules. -/
theorem transition_next (limit : Value) (c : Config) : Transition limit c (c.next limit) := by
  suffices ∃ n, Transition limit c n by
    obtain ⟨n, h⟩ := this
    exact next_of_transition h ▸ h
  cases hr : c.current.rest with
  | nil =>
    cases hs : c.current.stack.getLast? with
    | none => exact ⟨_, .emptied hr (List.getLast?_eq_none_iff.1 hs)⟩
    | some v =>
      cases he : c.ending with
      | error failure => exact ⟨_, .unwarned hr hs he⟩
      | ok session =>
        cases hc : c.callers with
        | nil => exact ⟨_, .finished hr hs hc he⟩
        | cons p callers => exact exists_transition_of_moves (.returned hr hs hc he)
  | cons step rest =>
    have hfail {failure : Failure} (h : Fails limit c.ticked step failure) :
        ∃ n, Transition limit c n := ⟨_, .failed hr h⟩
    match step with
    | .literal v => exact exists_transition_of_moves (.pushed hr (.literal v))
    | .sub steps => exact exists_transition_of_moves (.pushed hr (.sub steps))
    | .morphism .apply =>
      cases ht : target c.current.stack c.current.last with
      | error e => exact hfail (.target ht)
      | ok found =>
        obtain ⟨p, implicit, operands⟩ := found
        rcases Nat.lt_or_ge operands.length p.arity with hl | hl
        · exact hfail (.operands ht hl)
        · cases hp : p.call c.ticked.session.callback (arguments p operands) with
          | error cause => exact hfail (.primitive ht hl hp)
          | ok result => exact exists_transition_of_moves (.applied hr ht hl hp)
    | .morphism .cond =>
      match hs : c.current.stack with
      | [] | [_] | [_, _] => exact hfail (.condOperands (by rw [ticked, hs]; simp))
      | e :: t :: b :: below =>
        by_cases hv : ∃ steps, chosen b t e = .sub steps
        · obtain ⟨steps, hv⟩ := hv
          cases he : enter limit (c.depth + 1) with
          | error failure => exact hfail (.nesting hs hv he)
          | ok _ => exact ⟨_, .entered hr hs hv he⟩
        · exact exists_transition_of_moves (.decided hr hs fun steps h => hv ⟨steps, h⟩)
    | .morphism .identity | .morphism .lambda | .morphism .conj | .morphism .neg
    | .morphism .pair =>
      exact exists_transition_of_moves (.pushed hr (.morphism (by decide) (by decide)))
    | .null | .bool _ | .int _ | .float _ | .str _ | .bytes _ | .list _ | .tuple _ | .mapping _
    | .noRule | .reentrant _ => exact hfail (.notAStep rfl)

/-- The rules say exactly what is computed. -/
theorem next_eq_iff {n : Next} : c.next limit = n ↔ Transition limit c n :=
  ⟨fun h => h ▸ transition_next limit c, next_of_transition⟩

/-! ## Ends -/

/-- At the end of a derivation its session is left as it is, or a warning that shows the
    stack is added, or the stack cannot be shown. -/
theorem ending_cases (c : Config) :
    (c.current.stack.length = 1 ∧ c.ending = .ok c.session) ∨
    (c.current.stack.length ≠ 1 ∧ Value.areShowable c.current.stack = true ∧
      c.ending = .ok c.warnLeftover) ∨
    (c.current.stack.length ≠ 1 ∧ Value.areShowable c.current.stack = false ∧
      c.ending = .error (.fault .tooManyDigits)) := by
  rw [ending]
  split
  · exact .inl ⟨‹_›, rfl⟩
  · split
    · exact .inr (.inl ⟨‹_›, ‹_›, rfl⟩)
    · exact .inr (.inr ⟨‹_›, Bool.eq_false_iff.2 ‹_›, rfl⟩)

/-- Derivations with the same stack end alike. -/
theorem endings_of_stack {c c' : Config} (hs : c'.current.stack = c.current.stack) :
    (c.ending = .ok c.session ∧ c'.ending = .ok c'.session) ∨
    (∃ message, c.ending = .ok (c.session.warn message (c.event (.warned message))) ∧
      c'.ending = .ok (c'.session.warn message (c'.event (.warned message)))) ∨
    (c.ending = .error (.fault .tooManyDigits) ∧ c'.ending = .error (.fault .tooManyDigits)) := by
  rw [ending, ending, warnLeftover, warnLeftover, hs]
  split
  · exact .inl ⟨rfl, rfl⟩
  · split
    · exact .inr (.inl ⟨_, rfl, rfl⟩)
    · exact .inr (.inr ⟨rfl, rfl⟩)

/-- The stack that cannot be shown is the one reason for which there is no end. -/
theorem eq_tooManyDigits_of_ending {failure : Failure} (h : c.ending = .error failure) :
    failure = .fault .tooManyDigits := by
  rcases c.ending_cases with ⟨-, he⟩ | ⟨-, -, he⟩ | ⟨-, -, he⟩ <;> cases h.symm.trans he
  rfl

end Config

end Heptad.Stack
