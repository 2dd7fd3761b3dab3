import Heptad.Proofs.Field.Evaluation
import Heptad.Reflex.Loop

/-!
# What a cycle can do

A cycle of the reflex loop and its parts as rules, one for each of their ends:
what is answered, and which loop is left. Every call of the surroundings can
fail, so that a cycle has many ends, but each part touches only what is its own.

* `Acts`: acting touches the processor, and what the handler was told;
* `Learns`: learning touches the agent's state, and can then still fail to show it;
* `Runs`: a cycle observes, acts and learns, and is counted if nothing failed;
* `acts`, `learns`, `runs`: the rules cover everything that is computed.
-/

namespace Heptad

namespace Reflex

/-- The action that an observation calls for. -/
def Observation.action (o : Observation) : String :=
  if o.derivation.truthy then processAction else idleAction

namespace Loop

/-! ## Rules -/

/-- The loop that has asked for an observation. -/
def asked (l : Loop) : Loop := { l with observed := l.observed + 1 }

/-- The loop that has read the clock. -/
def timed (l : Loop) : Loop := { l with readings := l.readings + 1 }

/-- The loop whose processor has been handed a derivation and has taken it. -/
def processed (l : Loop) (derivation : Value) : Loop :=
  { l with processor := (l.processor.evaluate derivation).after }

/-- The loop with a new processor. -/
def rebuilt (l : Loop) : Loop :=
  { l with processor := .standard l.debug, rebuilds := l.rebuilds + 1 }

/-- The update that records a moment. -/
def update (time : String) : String × Value := ("last_reflex_time", .str time)

/-- How the handler is told of a field, and what it answers. -/
inductive Tells (l : Loop) (o : Observation) (field : Field) : Except Failure Unit → Loop → Prop
  | nobody : l.surroundings.handler = none → Tells l o field (.ok ()) l
  | nothing : o.data = .null → Tells l o field (.ok ()) l
  | handled {handle : Handler} : l.surroundings.handler = some handle → o.data ≠ .null →
      Tells l o field (handle l.told.length o field) { l with told := l.told ++ [(o, field)] }

/-- How acting ends. -/
inductive Acts (l : Loop) (o : Observation) (action : String) :
    Except Failure (Option Field) → Loop → Prop
  | idle : action ≠ processAction → Acts l o action (.ok none) l
  | unreadable {f : Fault} : action = processAction → o.derivation.items? = .error f →
      Acts l o action (.error (.fault f)) l
  | unshown {steps : List Value} : action = processAction → o.derivation.items? = .ok steps →
      Value.areShowable steps = false → Acts l o action (.error (.fault .tooManyDigits)) l
  | refused {steps : List Value} {reason : EvalError} : action = processAction →
      o.derivation.items? = .ok steps → Value.areShowable steps = true →
      (l.processor.evaluate o.derivation).outcome = .error (.evaluation reason) →
      Acts l o action (.error (.evaluation reason)) l.rebuilt
  | evaluated {steps : List Value} {field : Field} {answer : Except Failure Unit} {l' : Loop} :
      action = processAction → o.derivation.items? = .ok steps →
      Value.areShowable steps = true →
      (l.processor.evaluate o.derivation).outcome = .ok field →
      Tells (l.processed o.derivation) o field answer l' →
      Acts l o action (answer.map fun _ => some field) l'

/-- The agent's state with everything written that was learnt at some time. -/
def learnt (l : Loop) (time : String) (updates : List (String × Value)) : List (Value × Value) :=
  putAll l.agentState (update time :: updates)

/-- How learning ends. -/
inductive Learns (l : Loop) (o : Observation) (field : Value) :
    Except Failure (Option Morphism) → Loop → Prop
  | untimed {failure : Failure} : l.surroundings.clock l.readings = .error failure →
      Learns l o field (.error failure) l.timed
  | idle {time : String} : l.surroundings.clock l.readings = .ok time → field = .null →
      Learns l o field (.ok none) { l.timed with agentState := l.learnt time [] }
  | unlearned {time : String} {failure : Failure} : l.surroundings.clock l.readings = .ok time →
      field ≠ .null → lessons o field = .error failure →
      Learns l o field (.error failure) l.timed
  | learned {time : String} {dominant : Morphism} {updates : List (String × Value)} :
      l.surroundings.clock l.readings = .ok time → field ≠ .null →
      lessons o field = .ok (dominant, updates) →
      (Value.mapping (l.learnt time updates)).isShowable = true →
      Learns l o field (.ok (some dominant)) { l.timed with agentState := l.learnt time updates }
  | unshown {time : String} {dominant : Morphism} {updates : List (String × Value)} :
      l.surroundings.clock l.readings = .ok time → field ≠ .null →
      lessons o field = .ok (dominant, updates) →
      (Value.mapping (l.learnt time updates)).isShowable = false →
      Learns l o field (.error (.fault .tooManyDigits))
        { l.timed with agentState := l.learnt time updates }

/-- A field as learning is given it. -/
def fieldValue (field : Option Field) : Value := (field.map Field.toValue).getD .null

/-- How a cycle ends. -/
inductive Runs (l : Loop) : Except Failure Outcome → Loop → Prop
  | unobserved {failure : Failure} : l.surroundings.observer l.observed = .error failure →
      Runs l (.error failure) l.asked
  | unacted {o : Observation} {failure : Failure} {l' : Loop} :
      l.surroundings.observer l.observed = .ok o →
      Acts l.asked o o.action (.error failure) l' → Runs l (.error failure) l'
  | unlearned {o : Observation} {field : Option Field} {failure : Failure} {l' l'' : Loop} :
      l.surroundings.observer l.observed = .ok o → Acts l.asked o o.action (.ok field) l' →
      Learns l' o (fieldValue field) (.error failure) l'' → Runs l (.error failure) l''
  | completed {o : Observation} {field : Option Field} {dominant : Option Morphism}
      {l' l'' : Loop} :
      l.surroundings.observer l.observed = .ok o → Acts l.asked o o.action (.ok field) l' →
      Learns l' o (fieldValue field) (.ok dominant) l'' →
      Runs l (.ok ⟨o, o.action, field, dominant⟩) { l'' with iterations := l''.iterations + 1 }

/-! ## The surroundings -/

section

variable {l l' : Loop} {o : Observation}

/-- Acting does not touch the surroundings, and does not read the clock. -/
theorem Acts.surroundings {action : String} {outcome : Except Failure (Option Field)}
    (h : Acts l o action outcome l') :
    l'.surroundings = l.surroundings ∧ l'.readings = l.readings := by
  cases h with
  | idle | unreadable | unshown | refused => exact ⟨rfl, rfl⟩
  | evaluated _ _ _ _ ht =>
    cases ht with
    | nobody | nothing | handled => exact ⟨rfl, rfl⟩

theorem Learns.surroundings {field : Value} {outcome : Except Failure (Option Morphism)}
    (h : Learns l o field outcome l') : l'.surroundings = l.surroundings := by
  cases h with
  | untimed | idle | unlearned | learned | unshown => rfl

/-- No cycle touches the surroundings. -/
theorem Runs.surroundings {outcome : Except Failure Outcome} (h : Runs l outcome l') :
    l'.surroundings = l.surroundings := by
  cases h with
  | unobserved => rfl
  | unacted _ ha => exact ha.surroundings.1
  | unlearned _ ha hl | completed _ ha hl => exact hl.surroundings.trans ha.surroundings.1

end

/-! ## The rules cover what is computed -/

/-- A call whose value is only put in another form. -/
theorem andThen_give {α β : Type} (c : Call Loop α) (f : α → β) :
    (c.andThen fun a l => l.give (.ok (f a))) = ⟨c.outcome.map f, c.lines, c.after⟩ := by
  cases h : c.outcome with
  | error failure => rw [Call.andThen_of_error h, Except.map]
  | ok a =>
    rw [Call.andThen, h]
    exact congrArg (fun lines => Call.mk (.ok (f a)) lines c.after) (List.append_nil _)

variable (l : Loop) (o : Observation)

theorem tells (field : Field) :
    Tells l o field (l.tell o field).outcome (l.tell o field).after := by
  cases hh : l.surroundings.handler with
  | none =>
    have ht : l.tell o field = l.give (.ok ()) := by rw [tell, hh]
    rw [ht]
    exact .nobody hh
  | some handle =>
    by_cases hd : o.data = .null
    · have ht : l.tell o field = l.give (.ok ()) := by rw [tell, hh, hd]
      rw [ht]
      exact .nothing hd
    · have ht : l.tell o field = ⟨handle l.told.length o field, [],
          { l with told := l.told ++ [(o, field)] }⟩ := by
        rw [tell.eq_def, hh]
        split
        · rename_i h
          cases h
        · exact absurd ‹_› hd
        · rename_i h _
          cases h
          rfl
      rw [ht]
      exact .handled hh hd

/-- What the processor refuses costs it its place. -/
theorem process_of_refused {l : Loop} {derivation : Value} {reason : EvalError}
    (h : (l.processor.evaluate derivation).outcome = .error (.evaluation reason)) :
    (l.process derivation).outcome = .error (.evaluation reason) ∧
      (l.process derivation).after = l.rebuilt := by
  simp only [process, h]
  exact ⟨trivial, rfl⟩

/-- What the processor takes it keeps. -/
theorem process_of_ok {l : Loop} {derivation : Value} {field : Field}
    (h : (l.processor.evaluate derivation).outcome = .ok field) :
    (l.process derivation).outcome = .ok field ∧
      (l.process derivation).after = l.processed derivation := by
  simp only [process, h]
  exact ⟨trivial, rfl⟩

/-- Steps that have no text are not processed. -/
theorem act_of_unshown {l : Loop} {o : Observation} {steps : List Value}
    (hi : o.derivation.items? = .ok steps) (hs : Value.areShowable steps = false) :
    (l.act o processAction).outcome = .error (.fault .tooManyDigits) ∧
      (l.act o processAction).after = l := by
  simp only [act, note, noteShown, give, Call.andThen, hi, mapError_ok, hs]
  exact ⟨rfl, rfl⟩

/-- With steps to go through, acting is processing them and telling the handler. -/
theorem act_of_steps {l : Loop} {o : Observation} {steps : List Value}
    (hi : o.derivation.items? = .ok steps) (hs : Value.areShowable steps = true) :
    (l.act o processAction).outcome = ((l.process o.derivation).andThen fun field l =>
        (l.tell o field).andThen fun _ l => l.give (.ok (some field))).outcome ∧
      (l.act o processAction).after = ((l.process o.derivation).andThen fun field l =>
        (l.tell o field).andThen fun _ l => l.give (.ok (some field))).after := by
  simp only [act, note, noteShown, give, Call.andThen, hi, mapError_ok, hs]
  exact ⟨rfl, rfl⟩

theorem acts (action : String) :
    Acts l o action (l.act o action).outcome (l.act o action).after := by
  by_cases ha : action = processAction
  · subst ha
    cases hi : o.derivation.items? with
    | error f =>
      have : (l.act o processAction).outcome = .error (.fault f) ∧
          (l.act o processAction).after = l := by
        simp only [act, note, give, Call.andThen, hi]
        exact ⟨rfl, rfl⟩
      rw [this.1, this.2]
      exact .unreadable rfl hi
    | ok steps =>
      cases hs : Value.areShowable steps with
      | false =>
        obtain ⟨hr, hl⟩ := act_of_unshown (l := l) hi hs
        rw [hr, hl]
        exact .unshown rfl hi hs
      | true =>
        rw [(act_of_steps hi hs).1, (act_of_steps hi hs).2]
        generalize ho : (l.processor.evaluate o.derivation).outcome = outcome
        have hrefused {reason : EvalError} (ho : (l.processor.evaluate o.derivation).outcome =
            .error (.evaluation reason)) : Acts l o processAction
              ((l.process o.derivation).andThen fun field l =>
                (l.tell o field).andThen fun _ l => l.give (.ok (some field))).outcome
              ((l.process o.derivation).andThen fun field l =>
                (l.tell o field).andThen fun _ l => l.give (.ok (some field))).after := by
          obtain ⟨hp, hl⟩ := process_of_refused ho
          rw [Call.andThen_of_error hp, hl]
          exact .refused rfl hi hs ho
        cases ho ▸ Field.Evaluator.ends l.processor o.derivation with
        | busy => exact hrefused ho
        | rejected _ hi' ha =>
          cases hi.symm.trans hi'
          exact hrefused (ho.trans (congrArg Except.error (Field.raised_of_acceptAll ha hs)))
        | unreadable _ hi' =>
          rw [hi] at hi'
          cases hi'
        | accepted =>
          obtain ⟨hp, hl⟩ := process_of_ok ho
          rw [Call.outcome_andThen_of_ok hp, Call.after_andThen_of_ok hp, andThen_give, hl]
          exact .evaluated rfl hi hs ho (tells _ o _)
  · have hidle : (l.act o action).outcome = .ok none ∧ (l.act o action).after = l := by
      simp only [act, note, give, Call.andThen, if_pos ha]
      exact ⟨trivial, trivial⟩
    rw [hidle.1, hidle.2]
    exact .idle ha

/-- Learning reads the clock first. -/
theorem learn_of_untimed {l : Loop} {failure : Failure}
    (h : l.surroundings.clock l.readings = .error failure) (o : Observation) (field : Value) :
    (l.learn o field).outcome = .error failure ∧ (l.learn o field).after = l.timed := by
  simp only [learn, note, readClock, Call.andThen, h]
  exact ⟨trivial, rfl⟩

/-- Without a field the moment is all there is to learn. -/
theorem learn_of_idle {l : Loop} {time : String} (h : l.surroundings.clock l.readings = .ok time)
    (o : Observation) :
    (l.learn o .null).outcome = .ok none ∧
      (l.learn o .null).after = { l.timed with agentState := l.learnt time [] } := by
  simp only [learn, note, readClock, Call.andThen, h]
  exact ⟨trivial, rfl⟩

/-- With a field from which nothing is to be learnt nothing is written. -/
theorem learn_of_unlearned {l : Loop} {time : String} {o : Observation} {field : Value}
    {failure : Failure} (h : l.surroundings.clock l.readings = .ok time) (hf : field ≠ .null)
    (hlesson : lessons o field = .error failure) :
    (l.learn o field).outcome = .error failure ∧ (l.learn o field).after = l.timed := by
  simp only [learn, note, readClock, Call.andThen, give, h]
  cases field with
  | null => exact absurd rfl hf
  | _ =>
    simp only [hlesson]
    exact ⟨trivial, rfl⟩

/-- A message that shows values, and what comes back after it. -/
theorem noteShown_give {α : Type} (l : Loop) (showable : Bool) (message : String) (a : α) :
    ∃ lines, ((l.noteShown showable message).andThen fun _ l => l.give (.ok a)) =
      ⟨if showable then .ok a else .error (.fault .tooManyDigits), lines, l⟩ := by
  cases showable with
  | true | false => exact ⟨_, rfl⟩

/-- With a field from which something is to be learnt it is written, and the state is shown. -/
theorem learn_of_field {l : Loop} {time : String} {o : Observation} {field : Value}
    {dominant : Morphism} {updates : List (String × Value)}
    (h : l.surroundings.clock l.readings = .ok time) (hf : field ≠ .null)
    (hlesson : lessons o field = .ok (dominant, updates)) :
    (l.learn o field).outcome =
        (if (Value.mapping (l.learnt time updates)).isShowable then .ok (some dominant)
          else .error (.fault .tooManyDigits)) ∧
      (l.learn o field).after = { l.timed with agentState := l.learnt time updates } := by
  have hnote : (l.note "Learning...").outcome = .ok () := rfl
  have hread : (l.note "Learning...").after.readClock.outcome = .ok time := h
  have hgive : ((l.note "Learning...").after.readClock.after.give (lessons o field)).outcome =
    .ok (dominant, updates) := hlesson
  obtain ⟨lines, hshown⟩ := noteShown_give { l.timed with agentState := l.learnt time updates }
    (Value.mapping (l.learnt time updates)).isShowable
    s!"Agent {l.agentId} state updated: {(Value.mapping (l.learnt time updates)).repr}"
    (some dominant)
  rw [learn, Call.outcome_andThen_of_ok hnote, Call.after_andThen_of_ok hnote,
    Call.outcome_andThen_of_ok hread, Call.after_andThen_of_ok hread]
  cases field with
  | null => exact absurd rfl hf
  | _ =>
    dsimp only
    rw [Call.outcome_andThen_of_ok hgive, Call.after_andThen_of_ok hgive]
    exact ⟨congrArg Call.outcome hshown, congrArg Call.after hshown⟩

theorem learns (field : Value) :
    Learns l o field (l.learn o field).outcome (l.learn o field).after := by
  cases ht : l.surroundings.clock l.readings with
  | error failure =>
    obtain ⟨hr, hl⟩ := learn_of_untimed ht o field
    rw [hr, hl]
    exact .untimed ht
  | ok time =>
    by_cases hf : field = .null
    · subst hf
      obtain ⟨hr, hl⟩ := learn_of_idle ht o
      rw [hr, hl]
      exact .idle ht rfl
    · cases hlesson : lessons o field with
      | error failure =>
        obtain ⟨hr, hl⟩ := learn_of_unlearned ht hf hlesson
        rw [hr, hl]
        exact .unlearned ht hf hlesson
      | ok lesson =>
        obtain ⟨hr, hl⟩ := learn_of_field ht hf hlesson
        rw [hr, hl]
        split
        · exact .learned ht hf hlesson ‹_›
        · exact .unshown ht hf hlesson (Bool.eq_false_iff.2 ‹_›)

theorem runs : Runs l l.run.outcome l.run.after := by
  rw [run]
  cases ho : l.surroundings.observer l.observed with
  | error failure =>
    have hobserve : l.observe.outcome = .error failure := ho
    rw [Call.andThen_of_error hobserve]
    exact .unobserved ho
  | ok o =>
    have hobserve : l.observe.outcome = .ok o := ho
    have hevaluate : (l.observe.after.evaluate o).outcome = .ok o.action := rfl
    have hacts : Acts l.asked o o.action _ _ := acts (l.observe.after.evaluate o).after o o.action
    rw [Call.outcome_andThen_of_ok hobserve, Call.after_andThen_of_ok hobserve,
      Call.outcome_andThen_of_ok hevaluate, Call.after_andThen_of_ok hevaluate]
    generalize (l.observe.after.evaluate o).after.act o o.action = acted at hacts
    cases ha : acted.outcome with
    | error failure =>
      rw [Call.andThen_of_error ha]
      exact .unacted ho (ha ▸ hacts)
    | ok field =>
      have hlearns : Learns acted.after o (fieldValue field) _ _ :=
        learns acted.after o ((field.map Field.toValue).getD .null)
      rw [Call.outcome_andThen_of_ok ha, Call.after_andThen_of_ok ha]
      cases hl : (acted.after.learn o ((field.map Field.toValue).getD .null)).outcome with
      | error failure =>
        rw [Call.andThen_of_error hl]
        exact .unlearned ho (ha ▸ hacts) (hl ▸ hlearns)
      | ok dominant =>
        rw [Call.outcome_andThen_of_ok hl, Call.after_andThen_of_ok hl]
        exact .completed ho (ha ▸ hacts) (hl ▸ hlearns)

/-- A cycle that has acted ends with what keeps it from learning. -/
theorem run_of_unlearned {l : Loop} {o : Observation} {field : Option Field} {failure : Failure}
    (ho : l.surroundings.observer l.observed = .ok o)
    (ha : (l.asked.act o o.action).outcome = .ok field)
    (hl : ((l.asked.act o o.action).after.learn o (fieldValue field)).outcome = .error failure) :
    l.run.outcome = .error failure ∧
      l.run.after = ((l.asked.act o o.action).after.learn o (fieldValue field)).after := by
  have hobserve : l.observe.outcome = .ok o := ho
  have hevaluate : (l.observe.after.evaluate o).outcome = .ok o.action := rfl
  have hact : ((l.observe.after.evaluate o).after.act o o.action).outcome = .ok field := ha
  have hlearn : (((l.observe.after.evaluate o).after.act o o.action).after.learn o
      ((field.map Field.toValue).getD .null)).outcome = .error failure := hl
  rw [run, Call.outcome_andThen_of_ok hobserve, Call.after_andThen_of_ok hobserve,
    Call.outcome_andThen_of_ok hevaluate, Call.after_andThen_of_ok hevaluate,
    Call.outcome_andThen_of_ok hact, Call.after_andThen_of_ok hact, Call.andThen_of_error hlearn]
  exact ⟨rfl, rfl⟩

end Loop

end Reflex

end Heptad
