import Heptad.Proofs.Derivation.Ordinals
import Heptad.Proofs.Field.Dominant
import Heptad.Proofs.Outcome
import Heptad.Proofs.Reflex.Cycle
import Heptad.Proofs.Reflex.Entries
import Heptad.Proofs.Value.Showable

/-!
# Failed cycles leave no trace in the agent

A cycle can fail at the observer, at its derivation, at the processor, at the
handler, at the clock or at what is to be learnt. All of this lies before the
one moment at which the agent's state is written and the one at which the cycle
is counted. Between these two lies one failure: that the state written cannot be
shown.

* `Teaches`: what there is to be learnt from an observation and a field;
* `Announces`: how learning ends once this is written;
* `Due`: whether the handler is to be told of them;
* `cycles_are_atomic`: a cycle that fails leaves state and count alone if the state can be
  shown, learning writes all or nothing, and the handler is told once if this is due;
* `run_of_huge`: a cycle that fails and leaves a trace.
-/

namespace Heptad

namespace Reflex

namespace Loop

/-! ## Learning -/

/-- What there is to be learnt at some time from an observation and a field: the
    dominant morphism, and the updates of the agent's state. -/
inductive Teaches (time : String) (o : Observation) :
    Value → Option Morphism → List (String × Value) → Prop
  | moment : Teaches time o .null none [("last_reflex_time", .str time)]
  | lesson {field : Value} {dominant : Morphism} {weights steps : List Value} {hash : String} :
      field ≠ .null → field.dominant? = .ok dominant → field.items? = .ok weights →
      o.derivation.items? = .ok steps → Derivation.hash steps = .ok hash →
      Teaches time o field (some dominant)
        [("last_reflex_time", .str time), ("last_dominant_morphism", .str dominant.symbol),
          ("tensor_field_state", .list weights), ("derivation_hash", .str hash)]

variable {l l' : Loop} {o : Observation} {field : Value} {time : String}

theorem teaches_of_lessons {dominant : Morphism} {updates : List (String × Value)}
    (hf : field ≠ .null) (h : lessons o field = .ok (dominant, updates)) :
    Teaches time o field (some dominant) (update time :: updates) := by
  rw [lessons, bind_eq_ok] at h
  obtain ⟨m, hm, h⟩ := h
  obtain ⟨weights, hw, h⟩ := bind_eq_ok.1 h
  obtain ⟨steps, hs, h⟩ := bind_eq_ok.1 h
  obtain ⟨hash, hh, h⟩ := bind_eq_ok.1 h
  cases h
  exact .lesson hf (mapError_eq_ok.1 hm) (mapError_eq_ok.1 hw) (mapError_eq_ok.1 hs) hh

/-- What there is to learn from a field of numbers and a derivation that names
    morphisms. -/
theorem lessons_of_names {field : Field} {steps : List Value} {ms : List Morphism} {m : Morphism}
    (hm : field.dominant? = .ok m) (hi : o.derivation.items? = .ok steps)
    (hs : List.Forall₂ Names steps ms) :
    lessons o field.toValue = .ok (m, [("last_dominant_morphism", .str m.symbol),
      ("tensor_field_state", field.toValue),
      ("derivation_hash", .str (sha256 (Derivation.ordinalsText ms)))]) := by
  rw [lessons, ← Field.dominant?, hm, hi]
  show Derivation.hash steps >>= _ = _
  rw [Derivation.hash_of_names hs]
  rfl

/-- The updates are made under different keys. -/
theorem Teaches.pairwise {dominant : Option Morphism} {updates : List (String × Value)}
    (h : Teaches time o field dominant updates) : updates.Pairwise fun u w => u.1 ≠ w.1 := by
  cases h with
  | moment => simp
  | lesson => simp

/-- How learning ends once everything is written. If there was a field the state is shown,
    for which all of it needs a text. -/
inductive Announces (entries : List (Value × Value)) :
    Option Morphism → Except Failure (Option Morphism) → Prop
  | silent : Announces entries none (.ok none)
  | shown {m : Morphism} : (Value.mapping entries).isShowable = true →
      Announces entries (some m) (.ok (some m))
  | unshown {m : Morphism} : (Value.mapping entries).isShowable = false →
      Announces entries (some m) (.error (.fault .tooManyDigits))

/-- Learning fails and writes nothing, or writes all there is to be learnt. -/
theorem Learns.agentState {outcome : Except Failure (Option Morphism)}
    (h : Learns l o field outcome l') :
    (∃ failure, outcome = .error failure ∧ l'.agentState = l.agentState) ∨
      ∃ time dominant updates, l.surroundings.clock l.readings = .ok time ∧
        Teaches time o field dominant updates ∧ l'.agentState = putAll l.agentState updates ∧
        Announces l'.agentState dominant outcome := by
  cases h with
  | untimed | unlearned => exact .inl ⟨_, rfl, rfl⟩
  | idle ht hf =>
    subst hf
    exact .inr ⟨_, _, _, ht, .moment, rfl, .silent⟩
  | learned ht hf hlesson hs =>
    exact .inr ⟨_, _, _, ht, teaches_of_lessons hf hlesson, rfl, .shown hs⟩
  | unshown ht hf hlesson hs =>
    exact .inr ⟨_, _, _, ht, teaches_of_lessons hf hlesson, rfl, .unshown hs⟩

/-- Learning tells nobody and counts no cycle. -/
theorem Learns.told {outcome : Except Failure (Option Morphism)}
    (h : Learns l o field outcome l') : l'.told = l.told ∧ l'.iterations = l.iterations := by
  cases h with
  | untimed | idle | unlearned | learned | unshown => exact ⟨rfl, rfl⟩

/-- What a field teaches has a text. So once it is written the state has one iff the other
    entries do. -/
theorem Teaches.isShowable_putAll {field : Option Field} {dominant : Morphism}
    {updates : List (String × Value)}
    (h : Teaches time o (fieldValue field) (some dominant) updates)
    (entries : List (Value × Value)) :
    (Value.mapping (putAll entries updates)).isShowable = restShowable entries := by
  cases field with
  | none => cases h with | lesson hf => exact absurd rfl hf
  | some field =>
    cases h with
    | lesson _ _ hw =>
      cases hw
      refine Reflex.isShowable_putAll rfl ?_
      have hweights : Value.areShowable (field.toList.map .float) = true :=
        Value.areShowable_iff.2 (List.forall_mem_map.2 fun _ _ => rfl)
      exact List.forall_mem_cons.2 ⟨rfl, List.forall_mem_cons.2 ⟨rfl,
        List.forall_mem_cons.2 ⟨hweights, List.forall_mem_singleton.2 rfl⟩⟩⟩

/-! ## Acting -/

/-- Whether acting on an observation has to tell the handler of a field: there is a
    handler, the derivation led to the field, and there are data. -/
structure Due (l : Loop) (o : Observation) (action : String) (field : Field) : Prop where
  handler : l.surroundings.handler ≠ none
  work : action = processAction
  evaluated : (l.processor.evaluate o.derivation).outcome = .ok field
  data : o.data ≠ .null

/-- Acting does not touch the agent's state, and counts no cycle. -/
theorem Acts.agentState {action : String} {outcome : Except Failure (Option Field)}
    (h : Acts l o action outcome l') :
    l'.agentState = l.agentState ∧ l'.iterations = l.iterations := by
  cases h with
  | idle | unreadable | unshown | refused => exact ⟨rfl, rfl⟩
  | evaluated _ _ _ _ ht =>
    cases ht with
    | nobody | nothing | handled => exact ⟨rfl, rfl⟩

/-- Acting tells the handler once if this is due, and not at all otherwise. -/
theorem Acts.told {action : String} {outcome : Except Failure (Option Field)}
    (h : Acts l o action outcome l') :
    (∃ field, Due l o action field ∧ l'.told = l.told ++ [(o, field)]) ∨
      ((∀ field, ¬ Due l o action field) ∧ l'.told = l.told) := by
  cases h with
  | idle ha => exact .inr ⟨fun field hd => ha hd.work, rfl⟩
  | unreadable _ hi =>
    refine .inr ⟨fun field hd => ?_, rfl⟩
    obtain ⟨-, steps, -, hi', -⟩ := Field.Evaluator.accepted_of_evaluate_eq_ok hd.evaluated
    rw [hi] at hi'
    cases hi'
  | unshown _ hi hs =>
    refine .inr ⟨fun field hd => ?_, rfl⟩
    obtain ⟨-, steps, ms, hi', ha⟩ := Field.Evaluator.accepted_of_evaluate_eq_ok hd.evaluated
    cases hi.symm.trans hi'
    have hshown := Derivation.areShowable_of_names (Field.acceptAll_eq_ok_iff.1 ha)
    cases hs.symm.trans hshown
  | refused _ _ _ ho =>
    refine .inr ⟨fun field hd => ?_, rfl⟩
    have he := hd.evaluated
    rw [ho] at he
    cases he
  | evaluated ha _ _ ho ht =>
    cases ht with
    | nobody hh => exact .inr ⟨fun field hd => hd.handler hh, rfl⟩
    | nothing hdata => exact .inr ⟨fun field hd => hd.data hdata, rfl⟩
    | handled hh hdata =>
      refine .inl ⟨_, ⟨?_, ha, ho, hdata⟩, rfl⟩
      rw [show l.surroundings.handler = some _ from hh]
      exact nofun

/-! ## Cycles -/

/-- What a cycle leaves that fails to show what it has written: its lesson is in the
    agent's state, of which another entry has no text. -/
def Unshown (l l' : Loop) : Prop :=
  restShowable l.agentState = false ∧ ∃ time o field dominant updates,
    Teaches time o (fieldValue (some field)) (some dominant) updates ∧
    l'.agentState = putAll l.agentState updates

/-- A cycle that fails leaves the count alone, and the agent's state as well unless it fails
    to show it. One that is completed is counted. -/
theorem Runs.agentState {outcome : Except Failure Outcome} (h : Runs l outcome l') :
    (∃ failure, outcome = .error failure ∧ l'.agentState = l.agentState ∧
        l'.iterations = l.iterations) ∨
      (outcome = .error (.fault .tooManyDigits) ∧ Unshown l l' ∧ l'.iterations = l.iterations) ∨
      ∃ result, outcome = .ok result ∧ l'.iterations = l.iterations + 1 := by
  cases h with
  | unobserved => exact .inl ⟨_, rfl, rfl, rfl⟩
  | unacted _ ha => exact .inl ⟨_, rfl, ha.agentState.1, ha.agentState.2⟩
  | @unlearned o field _ acted _ _ ha hl =>
    have hcount := hl.told.2.trans ha.agentState.2
    rcases hl.agentState with ⟨_, -, hs⟩ | ⟨time, dominant, updates, -, hteaches, hs, hends⟩
    · exact .inl ⟨_, rfl, hs.trans ha.agentState.1, hcount⟩
    · rw [hs, ha.agentState.1] at hends
      cases hends with
      | unshown hnot =>
        rw [hteaches.isShowable_putAll] at hnot
        cases field with
        | none => cases hteaches with | lesson hf => exact absurd rfl hf
        | some field =>
          refine .inr (.inl ⟨rfl, ⟨hnot, time, o, field, _, updates, hteaches, ?_⟩, hcount⟩)
          rw [hs, ha.agentState.1]
          rfl
  | completed _ ha hl =>
    exact .inr (.inr ⟨_, rfl, congrArg Nat.succ (hl.told.2.trans ha.agentState.2)⟩)

/-- The handler was told once if this was due for what is observed, and not at all
    otherwise. -/
def ToldIfDue (l l' : Loop) : Prop :=
  (∃ o field, l.surroundings.observer l.observed = .ok o ∧ Due l o o.action field ∧
      l'.told = l.told ++ [(o, field)]) ∨
    (¬ (∃ o field, l.surroundings.observer l.observed = .ok o ∧ Due l o o.action field) ∧
      l'.told = l.told)

theorem ToldIfDue.of_told {l'' : Loop} (h : ToldIfDue l l') (ht : l''.told = l'.told) :
    ToldIfDue l l'' := by
  rw [ToldIfDue, ht]
  exact h

/-- Acting on what is observed tells the handler once if this is due, and not at
    all otherwise. -/
theorem Acts.told_of_observed {outcome : Except Failure (Option Field)}
    (ho : l.surroundings.observer l.observed = .ok o) (h : Acts l.asked o o.action outcome l') :
    ToldIfDue l l' := by
  rcases h.told with ⟨field, ⟨hh, hw, he, hdata⟩, ht⟩ | ⟨hnot, ht⟩
  · exact .inl ⟨o, field, ho, ⟨hh, hw, he, hdata⟩, ht⟩
  · refine .inr ⟨?_, ht⟩
    rintro ⟨o', field, ho', hd⟩
    rw [ho] at ho'
    cases ho'
    exact hnot field ⟨hd.handler, hd.work, hd.evaluated, hd.data⟩

/-- A cycle tells the handler once if this is due, and not at all otherwise. -/
theorem Runs.told {outcome : Except Failure Outcome} (h : Runs l outcome l') :
    ToldIfDue l l' := by
  cases h with
  | unobserved ho =>
    refine .inr ⟨?_, rfl⟩
    rintro ⟨_, _, ho', -⟩
    rw [ho] at ho'
    cases ho'
  | unacted ho ha => exact ha.told_of_observed ho
  | unlearned ho ha hl => exact (ha.told_of_observed ho).of_told hl.told.1
  | completed ho ha hl => exact (ha.told_of_observed ho).of_told hl.told.1

/-- What a cycle tells the handler it tells while acting, when the agent's state is
    still what it was. -/
theorem told_before_learning {field : Field} (ho : l.surroundings.observer l.observed = .ok o)
    (hd : Due l o o.action field) :
    (l.observe.after.act o o.action).after.told = l.told ++ [(o, field)] ∧
      (l.observe.after.act o o.action).after.agentState = l.agentState := by
  have ha : Acts l.asked o o.action _ _ := acts l.observe.after o o.action
  refine ⟨?_, ha.agentState.1⟩
  rcases ha.told_of_observed ho with ⟨o', field', ho', hd', ht⟩ | ⟨hnot, -⟩
  · rw [ho] at ho'
    cases ho'
    have he := hd'.evaluated
    rw [hd.evaluated] at he
    cases he
    exact ht
  · exact absurd ⟨o, field, ho, hd⟩ hnot

/-- Failed cycles leave no trace in the agent, unless its state cannot be shown. A cycle
    that fails, for whatever other reason, leaves the agent's state and the count of cycles
    alone, and one that is completed is counted once. If the state has an entry without a
    text, a cycle that fails for this has written its lesson. Learning from any observation
    and any field fails and writes nothing, or writes all there is to be learnt and nothing
    else, and then shows it. A cycle tells the handler once, before it writes, of an
    observation that has data and whose derivation was evaluated, and of nothing otherwise. -/
theorem cycles_are_atomic (l : Loop) :
    ((∃ failure, l.run.outcome = .error failure ∧ l.run.after.agentState = l.agentState ∧
        l.run.after.iterations = l.iterations) ∨
      (l.run.outcome = .error (.fault .tooManyDigits) ∧ Unshown l l.run.after ∧
        l.run.after.iterations = l.iterations) ∨
      ∃ result, l.run.outcome = .ok result ∧ l.run.after.iterations = l.iterations + 1) ∧
    (∀ (o : Observation) (field : Value),
      (∃ failure, (l.learn o field).outcome = .error failure ∧
        (l.learn o field).after.agentState = l.agentState) ∨
      ∃ time dominant updates, l.surroundings.clock l.readings = .ok time ∧
        Teaches time o field dominant updates ∧
        (l.learn o field).after.agentState = putAll l.agentState updates ∧
        Written l.agentState updates (l.learn o field).after.agentState ∧
        Announces (l.learn o field).after.agentState dominant (l.learn o field).outcome) ∧
    ((∃ o field, l.surroundings.observer l.observed = .ok o ∧ Due l o o.action field ∧
        (l.observe.after.act o o.action).after.told = l.told ++ [(o, field)] ∧
        (l.observe.after.act o o.action).after.agentState = l.agentState ∧
        l.run.after.told = l.told ++ [(o, field)]) ∨
      (¬ (∃ o field, l.surroundings.observer l.observed = .ok o ∧ Due l o o.action field) ∧
        l.run.after.told = l.told)) := by
  refine ⟨l.runs.agentState, fun o field => ?_, ?_⟩
  · rcases (l.learns o field).agentState with hfailed | ⟨time, dominant, updates, ht, hu, hs, ho⟩
    · exact .inl hfailed
    · exact .inr ⟨time, dominant, updates, ht, hu, hs, hs ▸ written_putAll _ hu.pairwise, ho⟩
  · rcases l.runs.told with ⟨o, field, ho, hd, ht⟩ | hnot
    · obtain ⟨htold, hstate⟩ := told_before_learning ho hd
      exact .inl ⟨o, field, ho, hd, htold, hstate, ht⟩
    · exact .inr hnot

/-- A loop whose handler gives up, with one thing to observe. -/
def givingUp : Loop :=
  .new "agent" ⟨queue [⟨"alarm", .list [.morphism .neg], .int 1⟩], steady "now", some refusing⟩
    [(.str "calm", .bool true)] .null

-- its handler is told, and its agent knows nothing of it
example : givingUp.run.after.told.length = 1 ∧ givingUp.run.after.iterations = 0 ∧
    givingUp.run.after.agentState = givingUp.agentState := ⟨rfl, rfl, rfl⟩

/-! ## States that cannot be shown -/

/-- What there is to observe for a loop with a step to evaluate. -/
def oneStep : Observation := ⟨"work", .list [.morphism .apply], .null⟩

/-- A loop with a step to evaluate, whose agent holds a value. -/
def holding (v : Value) : Loop :=
  .new "agent" ⟨queue [oneStep], steady "now", none⟩ [(.str "n", v)] .null

/-- The field that the step leads to. -/
def oneStepField : Field := (Field.State.initial.run .standard3 [.apply]).field

theorem restShowable_single {v : Value} (h : v.isShowable = false) :
    restShowable [(.str "n", v)] = false := by
  rw [← Bool.not_eq_true, restShowable_iff]
  intro hall
  have hne : ∀ key ∈ knownKeys, Value.str "n" ≠ .str key := fun key hkey heq => by
    cases heq
    exact absurd hkey (by decide)
  exact Bool.false_ne_true (h.symm.trans (hall _ List.mem_cons_self hne).2)

/-- A loop whose agent holds a value without a text writes what this field teaches, and then
    fails. -/
theorem learn_holding {v : Value} (h : v.isShowable = false) :
    ∃ updates, updates.map Prod.fst = knownKeys ∧
      let l := ((holding v).asked.act oneStep oneStep.action).after
      (l.learn oneStep oneStepField.toValue).outcome = .error (.fault .tooManyDigits) ∧
      (l.learn oneStep oneStepField.toValue).after.agentState =
        putAll [(.str "n", v)] updates := by
  have hinitial : Field.State.initial.field.Numeric := Field.numeric_oneHot .identity
  have hnumeric : oneStepField.Numeric := Field.State.numeric_run .standard3 hinitial [.apply]
  obtain ⟨m, hm, -⟩ := hnumeric.exists_dominant?
  have hlesson := lessons_of_names (o := oneStep) hm rfl (.cons (.morphism .apply) .nil)
  have hne (field : Field) : field.toValue ≠ .null := nofun
  have hacted : ((holding v).asked.act oneStep oneStep.action).after.agentState =
    [(.str "n", v)] := rfl
  have hclock : ((holding v).asked.act oneStep oneStep.action).after.surroundings.clock
    ((holding v).asked.act oneStep oneStep.action).after.readings = .ok "now" := rfl
  obtain ⟨houtcome, hafter⟩ := learn_of_field hclock (hne _) hlesson
  have hteaches : Teaches "now" oneStep (fieldValue (some oneStepField)) (some m) _ :=
    teaches_of_lessons (hne _) hlesson
  have hshown := (hteaches.isShowable_putAll [(.str "n", v)]).trans (restShowable_single h)
  rw [learnt, hacted] at houtcome hafter
  rw [if_neg (Bool.eq_false_iff.1 hshown)] at houtcome
  exact ⟨_, rfl, houtcome, congrArg Loop.agentState hafter⟩

/-- A loop whose agent holds a value without a text fails in its cycle and leaves a trace in
    the agent. -/
theorem run_holding {v : Value} (h : v.isShowable = false) :
    (holding v).run.outcome = .error (.fault .tooManyDigits) ∧
      (holding v).run.after.agentState ≠ (holding v).agentState := by
  obtain ⟨updates, hkeys, hlearn, hstate⟩ := learn_holding h
  have hvalue (field : Field) : fieldValue (some field) = field.toValue := rfl
  have hobserved : (holding v).surroundings.observer (holding v).observed = .ok oneStep := rfl
  have hacted : ((holding v).asked.act oneStep oneStep.action).outcome =
    .ok (some oneStepField) := rfl
  rw [← hvalue] at hlearn hstate
  obtain ⟨houtcome, hafter⟩ := run_of_unlearned hobserved hacted hlearn
  refine ⟨houtcome, fun hsame => ?_⟩
  have hwritten : "last_reflex_time" ∈ updates.map Prod.fst := hkeys ▸ List.mem_cons_self
  obtain ⟨u, hu, hkey⟩ := List.mem_map.1 hwritten
  have hhas := hasKey_putAll hu [(.str "n", v)]
  rw [← hstate, ← hafter, hsame, hkey] at hhas
  exact Bool.false_ne_true ((hasKey_single "n" "last_reflex_time" v).symm.trans hhas)

/-- A cycle that fails, although neither clock nor handler does, and leaves a trace in the
    agent. -/
theorem run_of_huge :
    (holding .huge).run.outcome = .error (.fault .tooManyDigits) ∧
      (holding .huge).run.after.agentState ≠ (holding .huge).agentState :=
  run_holding Value.isShowable_huge

end Loop

end Reflex

end Heptad
