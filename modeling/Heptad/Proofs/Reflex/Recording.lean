import Heptad.Proofs.Reflex.Atomicity
import Heptad.Proofs.Reflex.Replay

/-!
# What is evaluated can be recorded

A loop records what it has evaluated: the dominant morphism of the field, and a hash
of the derivation. Neither can fail. The processor only ever accepts steps that name
morphisms, and these are hashed; and its weights are numbers, as they begin with
numbers and only have ones added, so one morphism dominates. What can fail is the
clock, and showing the state once it is written: an entry that came with the agent
may have no text.

* `numeric_runAll`: the weights of a processor are numbers, whatever was done;
* `learn_of_numeric`: learning from a field of numbers fails iff the clock does or the
  rest of the state cannot be shown;
* `evaluated_is_recorded`: so once acting has led to a field nothing else can keep a
  cycle from being completed;
* `unrecorded_of_huge`: a cycle whose clock answers and that is not completed.
-/

namespace Heptad

namespace Reflex

namespace Loop

variable {l l' : Loop} {o : Observation}

/-! ## The weights of the processor -/

/-- A run of a past from the initial field leaves numbers. -/
theorem Tracked.numeric {past : List Value} {e : Field.Evaluator} (h : Tracked past e) :
    e.state.field.Numeric := by
  obtain ⟨-, ms, -, hs⟩ := h
  rw [hs]
  exact Field.State.numeric_run _ (Field.numeric_oneHot .identity) ms

theorem numeric_runAll (agentId : String) (surroundings : Surroundings)
    (agentState : List (Value × Value)) (debug : Value) (ops : List Operation) :
    ((Loop.new agentId surroundings agentState debug).runAll ops).processor.state.field.Numeric :=
  (tracked_runAll (tracked_standard debug) ops).numeric

/-! ## Learning -/

/-- The field that acting leads to is what the processor evaluated, and the processor
    is not touched afterwards. -/
theorem Acts.field {action : String} {field : Field} (h : Acts l o action (.ok (some field)) l') :
    (l.processor.evaluate o.derivation).outcome = .ok field ∧
      l'.processor = (l.processor.evaluate o.derivation).after := by
  generalize hr : Except.ok (some field) = outcome at h
  cases h with
  | idle | unreadable | unshown | refused => cases hr
  | evaluated _ _ _ ho ht =>
    obtain ⟨-, -, hf⟩ := map_eq_ok.1 hr.symm
    cases hf
    exact ⟨ho, ht.processor.1⟩

/-- What recording a dominant morphism comes to once the clock is read. The state is
    shown, for which every entry that is not written needs a text. -/
def announce (l : Loop) (m : Morphism) : Except Failure (Option Morphism) :=
  if restShowable l.agentState then .ok (some m) else .error (.fault .tooManyDigits)

/-- Learning from a field that acting has led to fails iff the clock does or the rest of
    the state cannot be shown, if the weights of the processor were numbers. -/
theorem learn_of_numeric {action : String} {field : Field}
    (hn : l.processor.state.field.Numeric) (h : Acts l o action (.ok (some field)) l') :
    ∃ m steps hash, field.dominant? = .ok m ∧ o.derivation.items? = .ok steps ∧
      Derivation.hash steps = .ok hash ∧ Value.areShowable steps = true ∧
      l'.processor.state.field = field ∧
      (l'.learn o field.toValue).outcome =
        (l.surroundings.clock l.readings).bind fun _ => l.announce m := by
  obtain ⟨ho, hp⟩ := h.field
  obtain ⟨steps, ms, hi, hs, hfield, hstate⟩ := Field.Evaluator.names_of_evaluate_eq_ok ho
  obtain ⟨m, hm, -⟩ : ∃ m, field.dominant? = .ok m ∧ field.Dominates m :=
    hfield ▸ (Field.State.numeric_run _ hn ms).exists_dominant?
  refine ⟨m, steps, _, hm, hi, Derivation.hash_of_names hs, Derivation.areShowable_of_names hs,
    ?_, ?_⟩
  · rw [hp, hstate, hfield]
  · rw [← h.surroundings.1, ← h.surroundings.2, announce, ← h.agentState.1]
    cases ht : l'.surroundings.clock l'.readings with
    | error failure => exact (learn_of_untimed ht o field.toValue).1
    | ok time =>
      have hne : field.toValue ≠ .null := nofun
      have hlesson := lessons_of_names hm hi hs
      have hteaches : Teaches time o (fieldValue (some field)) (some m) _ :=
        teaches_of_lessons hne hlesson
      rw [(learn_of_field ht hne hlesson).1, learnt, hteaches.isShowable_putAll, Except.bind]

/-- A cycle that has acted is completed iff it learns. -/
theorem outcome_run {field : Option Field} (ho : l.surroundings.observer l.observed = .ok o)
    (ha : (l.asked.act o o.action).outcome = .ok field) :
    l.run.outcome = ((l.asked.act o o.action).after.learn o (fieldValue field)).outcome.map
      fun dominant => ⟨o, o.action, field, dominant⟩ := by
  have hobserve : l.observe.outcome = .ok o := ho
  have hevaluate : (l.observe.after.evaluate o).outcome = .ok o.action := rfl
  have hact : ((l.observe.after.evaluate o).after.act o o.action).outcome = .ok field := ha
  rw [run, Call.outcome_andThen_of_ok hobserve, Call.outcome_andThen_of_ok hevaluate,
    Call.outcome_andThen_of_ok hact]
  have hlearn : ((l.observe.after.evaluate o).after.act o o.action).after.learn o
      ((field.map Field.toValue).getD .null) =
    (l.asked.act o o.action).after.learn o (fieldValue field) := rfl
  rw [hlearn]
  cases hl : ((l.asked.act o o.action).after.learn o (fieldValue field)).outcome with
  | error failure => rw [Call.andThen_of_error hl, Except.map]
  | ok dominant =>
    rw [Call.outcome_andThen_of_ok hl]
    rfl

/-- What can be evaluated can be recorded. A call of a field evaluator that returns
    was given steps that name morphisms, whose canonical text, hash and rendering are
    those of their ordinals. And whatever was done with a loop, one morphism dominates
    the field of its processor. Once acting has led to a field, this is still so and
    the derivation has a rendering and a hash, so that learning, and with it the cycle,
    fails iff the clock does or the agent's state cannot be shown for an entry that came
    with it. -/
theorem evaluated_is_recorded (e : Field.Evaluator) (agentId : String)
    (surroundings : Surroundings) (agentState : List (Value × Value)) (debug : Value)
    (ops : List Operation) :
    (∀ (derivation : Value) (field : Field),
      (e.evaluate derivation).outcome = .ok field →
      ∃ steps ms, derivation.items? = .ok steps ∧ List.Forall₂ Names steps ms ∧
        Value.areShowable steps = true ∧ field = (e.state.run e.table ms).field ∧
        Derivation.canonicalText steps = .ok (Derivation.ordinalsText ms) ∧
        Derivation.hash steps = .ok (sha256 (Derivation.ordinalsText ms)) ∧
        Derivation.render steps = " ".intercalate (ms.map Morphism.symbol)) ∧
    ∀ l : Loop, l = (Loop.new agentId surroundings agentState debug).runAll ops →
      (∃ m, l.processor.state.field.dominant? = .ok m) ∧
      ∀ (o : Observation) (field : Field),
        (∀ action, (l.act o action).outcome = .ok (some field) →
          ∃ m steps hash, field.dominant? = .ok m ∧ o.derivation.items? = .ok steps ∧
            Derivation.hash steps = .ok hash ∧ Value.areShowable steps = true ∧
            (l.act o action).after.processor.state.field = field ∧
            ((l.act o action).after.learn o field.toValue).outcome =
              (l.surroundings.clock l.readings).bind fun _ => l.announce m) ∧
        (l.surroundings.observer l.observed = .ok o →
          (l.asked.act o o.action).outcome = .ok (some field) →
          ∃ m, field.dominant? = .ok m ∧
            l.run.outcome = ((l.surroundings.clock l.readings).bind fun _ => l.announce m).map
              fun dominant => ⟨o, o.action, some field, dominant⟩) := by
  refine ⟨fun derivation field h => ?_, fun l hl => ?_⟩
  · obtain ⟨steps, ms, hi, hs, hfield, -⟩ := Field.Evaluator.names_of_evaluate_eq_ok h
    exact ⟨steps, ms, hi, hs, Derivation.areShowable_of_names hs, hfield,
      Derivation.canonicalText_of_names hs,
      Derivation.hash_of_names hs, Derivation.render_of_names hs⟩
  · have hn : l.processor.state.field.Numeric :=
      hl ▸ numeric_runAll agentId surroundings agentState debug ops
    obtain ⟨m, hm, -⟩ := hn.exists_dominant?
    refine ⟨⟨m, hm⟩, fun o field => ⟨fun action ha => ?_, fun ho ha => ?_⟩⟩
    · exact learn_of_numeric hn (ha ▸ l.acts o action)
    · obtain ⟨m, -, -, hm, -, -, -, -, hlearn⟩ :=
        learn_of_numeric (l := l.asked) hn (ha ▸ l.asked.acts o o.action)
      have hlearn : ((l.asked.act o o.action).after.learn o (fieldValue (some field))).outcome =
        (l.surroundings.clock l.readings).bind fun _ => l.announce m := hlearn
      exact ⟨m, hm, (outcome_run ho ha).trans (congrArg (Except.map _) hlearn)⟩

/-- Keys of a mapping, a morphism and an ordinal, have the canonical text of two
    ordinals. A loop whose first cycle fails on an integer goes on to evaluate bytes,
    and if it fails again then with the clock. -/
theorem evaluated_is_recorded_of_failed_cycle :
    (∃ ms, List.Forall₂ Names [.morphism .conj, .int 4] ms ∧
      Derivation.canonicalText [.morphism .conj, .int 4] = .ok (Derivation.ordinalsText ms)) ∧
    ∃ l : Loop, l = (Loop.new "agent" ⟨queue [⟨"first", .list [.int 7], .null⟩,
        ⟨"second", .bytes [6, 0], .null⟩], scripted [.failing], none⟩ [] .null).runAll [.run] ∧
      l.run.outcome = .error (.fault .clockFailed) := by
  obtain ⟨hcalls, hloops⟩ := evaluated_is_recorded (.standard .null) "agent"
    ⟨queue [⟨"first", .list [.int 7], .null⟩, ⟨"second", .bytes [6, 0], .null⟩],
      scripted [.failing], none⟩ [] .null [.run]
  constructor
  · have hkeys : (Field.Evaluator.evaluate (.standard .null)
        (.mapping [(.morphism .conj, .null), (.int 4, .null)])).outcome =
      .ok (Field.State.initial.run .standard3 [.conj, .neg]).field := rfl
    obtain ⟨steps, ms, hi, hs, -, -, htext, -⟩ := hcalls _ _ hkeys
    cases hi
    exact ⟨ms, hs, htext⟩
  · obtain ⟨-, hcycles⟩ := hloops _ rfl
    obtain ⟨m, -, hrun⟩ := (hcycles ⟨"second", .bytes [6, 0], .null⟩
      (Field.State.initial.run .standard3 [.pair, .identity]).field).2 rfl rfl
    exact ⟨_, rfl, hrun⟩

/-- A cycle that has acted and whose clock answers, and that still fails to learn. -/
theorem unrecorded_of_huge :
    ∃ l : Loop, l = (Loop.new "agent" ⟨queue [oneStep], steady "now", none⟩
        [(.str "n", .huge)] .null).runAll [] ∧
      l.surroundings.observer l.observed = .ok oneStep ∧
      (l.asked.act oneStep oneStep.action).outcome = .ok (some oneStepField) ∧
      l.surroundings.clock l.readings = .ok "now" ∧
      ((l.asked.act oneStep oneStep.action).after.learn oneStep oneStepField.toValue).outcome =
        .error (.fault .tooManyDigits) := by
  obtain ⟨_, -, hlearn, -⟩ := learn_holding Value.isShowable_huge
  exact ⟨_, rfl, rfl, rfl, rfl, hlearn⟩

end Loop

end Reflex

end Heptad
