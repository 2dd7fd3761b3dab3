import Heptad.Proofs.Field.Replay
import Heptad.Proofs.Reflex.Cycle

/-!
# Replaying the processor of a loop

Whatever is done with a reflex loop, and whatever its surroundings answer, its
processor is where one evaluator gets that is given, in order, all derivations
the processor accepted since it was new. A cycle can fail in many places, but
only a derivation that the processor refuses makes the loop replace it; what it
has accepted it keeps, also if the cycle fails later.

* `work?`: the derivation an operation hands to the processor, if it gets so far;
* `Treats`, `treats`: what becomes of the processor then, and that no operation
  does anything else to it;
* `tracked_runAll`: so it stays where one run of the steps it accepted leads;
* `replaced_or_kept`: and only a derivation that it refuses makes the loop replace it;
* `processor_replays`: both together, with an evaluator that replays the processor
  (`Replays`).
-/

namespace Heptad

namespace Reflex

/-- The derivation that acting on an observation hands to the processor. There is none
    without work, or if the work cannot be gone through or has no rendering. -/
def Observation.work? (o : Observation) (action : String) : Option Value :=
  if action = processAction then
    match o.derivation.items? with
    | .ok steps => if Value.areShowable steps then some o.derivation else none
    | .error _ => none
  else none

namespace Loop

/-! ## Operations -/

/-- An operation on a loop. -/
inductive Operation where
  /-- One cycle. -/
  | run
  | observe
  | evaluate (o : Observation)
  | act (o : Observation) (action : String)
  | learn (o : Observation) (field : Value)
  /-- The guard of the processor taken, if it is free. -/
  | lock

/-- The loop after an operation. -/
def Operation.apply (l : Loop) : Operation → Loop
  | run => l.run.after
  | observe => l.observe.after
  | evaluate o => (l.evaluate o).after
  | act o action => (l.act o action).after
  | learn o field => (l.learn o field).after
  | lock => l.lock.after

/-- The loop after a sequence of operations. -/
def runAll (l : Loop) (ops : List Operation) : Loop := ops.foldl Operation.apply l

/-- The derivation an operation hands to the processor. -/
def work? (l : Loop) : Operation → Option Value
  | .run =>
    match l.surroundings.observer l.observed with
    | .ok o => o.work? o.action
    | .error _ => none
  | .act o action => o.work? action
  | .observe | .evaluate _ | .learn _ _ | .lock => none

/-- Whether an operation hands the processor a derivation that it refuses. -/
def Refuses (l : Loop) (op : Operation) : Prop :=
  ∃ derivation reason, l.work? op = some derivation ∧
    (l.processor.evaluate derivation).outcome = .error (.evaluation reason)

/-- The steps the processor has accepted since it was new, in order, with an
    operation added to the past. -/
def remember (l : Loop) (past : List Value) (op : Operation) : List Value :=
  match l.work? op with
  | none => past
  | some derivation =>
    match (l.processor.evaluate derivation).outcome with
    | .error (.evaluation _) => []
    | _ => past ++ l.processor.acceptedSteps derivation

/-- The steps accepted, with a sequence of operations added. -/
def rememberAll (l : Loop) (past : List Value) : List Operation → List Value
  | [] => past
  | op :: ops => (op.apply l).rememberAll (l.remember past op) ops

/-! ## What becomes of the processor -/

/-- What becomes of a processor, and of the number of times it was replaced, once
    it is handed some work: it accepts the work, or it is replaced. Without work
    nothing happens to it but that its guard is taken. -/
inductive Treats (l : Loop) : Option Value → Field.Evaluator → Nat → Prop
  | spared {e : Field.Evaluator} : e.state = l.processor.state → e.table = l.processor.table →
      Treats l none e l.rebuilds
  | accepted {derivation : Value} {field : Field} :
      (l.processor.evaluate derivation).outcome = .ok field →
      Treats l (some derivation) (l.processor.evaluate derivation).after l.rebuilds
  | refused {derivation : Value} {reason : EvalError} :
      (l.processor.evaluate derivation).outcome = .error (.evaluation reason) →
      Treats l (some derivation) (.standard l.debug) (l.rebuilds + 1)

variable {l l' : Loop} {o : Observation}

/-- Asking for an observation makes no difference to the processor. -/
theorem Treats.of_asked {work : Option Value} {e : Field.Evaluator} {n : Nat}
    (h : Treats l.asked work e n) : Treats l work e n := by
  cases h with
  | spared hs ht => exact .spared hs ht
  | accepted ho => exact .accepted ho
  | refused ho => exact .refused ho

/-- Telling the handler leaves the processor alone, whatever the answer. -/
theorem Tells.processor {field : Field} {answer : Except Failure Unit}
    (h : Tells l o field answer l') : l'.processor = l.processor ∧ l'.rebuilds = l.rebuilds := by
  cases h with
  | nobody | nothing | handled => exact ⟨rfl, rfl⟩

/-- Learning leaves the processor alone, whatever comes of it. -/
theorem Learns.processor {field : Value} {outcome : Except Failure (Option Morphism)}
    (h : Learns l o field outcome l') : l'.processor = l.processor ∧ l'.rebuilds = l.rebuilds := by
  cases h with
  | untimed | idle | unlearned | learned | unshown => exact ⟨rfl, rfl⟩

theorem work?_of_steps {steps : List Value} (hi : o.derivation.items? = .ok steps) :
    o.work? processAction = if Value.areShowable steps then some o.derivation else none := by
  rw [Observation.work?, if_pos rfl, hi]

/-- Acting hands its work to the processor. -/
theorem Acts.treats {action : String} {outcome : Except Failure (Option Field)}
    (h : Acts l o action outcome l') : Treats l (o.work? action) l'.processor l'.rebuilds := by
  cases h with
  | idle ha =>
    rw [Observation.work?, if_neg ha]
    exact .spared rfl rfl
  | unreadable ha hi =>
    rw [Observation.work?, if_pos ha, hi]
    exact .spared rfl rfl
  | unshown ha hi hs =>
    rw [ha, work?_of_steps hi, if_neg (Bool.eq_false_iff.1 hs)]
    exact .spared rfl rfl
  | refused ha hi hs ho =>
    rw [ha, work?_of_steps hi, if_pos hs]
    exact .refused ho
  | evaluated ha hi hs ho ht =>
    rw [ha, work?_of_steps hi, if_pos hs, ht.processor.1, ht.processor.2]
    exact .accepted ho

/-- A cycle does what its acting does, whatever fails before or afterwards. -/
theorem Runs.treats {outcome : Except Failure Outcome} (h : Runs l outcome l') :
    Treats l (l.work? .run) l'.processor l'.rebuilds := by
  cases h with
  | unobserved ho =>
    rw [work?, ho]
    exact .spared rfl rfl
  | unacted ho ha =>
    rw [work?, ho]
    exact ha.treats.of_asked
  | unlearned ho ha hl =>
    rw [work?, ho, hl.processor.1, hl.processor.2]
    exact ha.treats.of_asked
  | completed ho ha hl =>
    rw [work?, ho, hl.processor.1, hl.processor.2]
    exact ha.treats.of_asked

/-- Every operation hands its work to the processor, and does nothing else to it. -/
theorem treats (l : Loop) (op : Operation) :
    Treats l (l.work? op) (op.apply l).processor (op.apply l).rebuilds := by
  cases op with
  | run => exact l.runs.treats
  | act o action => exact (l.acts o action).treats
  | learn o field =>
    have h := (l.learns o field).processor
    rw [Operation.apply, h.1, h.2]
    exact .spared rfl rfl
  | observe | evaluate | lock => exact .spared rfl rfl

/-! ## Replay -/

/-- A processor is where one run of its past leads. -/
def Tracked (past : List Value) (e : Field.Evaluator) : Prop :=
  e.table = .standard3 ∧ Field.Evaluator.Tracks .initial ⟨false, past⟩ e

/-- A new processor has no past. -/
theorem tracked_standard (debug : Value) : Tracked [] (.standard debug) := ⟨rfl, [], rfl, rfl⟩

/-- Every operation keeps the processor where one run of its past leads. -/
theorem tracked_apply {past : List Value} (h : Tracked past l.processor) (op : Operation) :
    Tracked (l.remember past op) (op.apply l).processor := by
  have ht := l.treats op
  rw [remember]
  generalize (op.apply l).processor = e, (op.apply l).rebuilds = n, l.work? op = work at ht ⊢
  obtain ⟨htable, htracks⟩ := h
  cases ht with
  | spared hs ht =>
    refine ⟨ht.trans htable, ?_⟩
    rw [Field.Evaluator.Tracks, hs, ht]
    exact htracks
  | @accepted derivation field ho =>
    simp only [ho]
    exact ⟨(l.processor.table_evaluate derivation).trans htable,
      Field.Evaluator.tracks_evaluate htracks derivation⟩
  | refused ho =>
    simp only [ho]
    exact tracked_standard l.debug

/-- Every sequence of operations keeps the processor where one run of its past leads. -/
theorem tracked_runAll {past : List Value} (h : Tracked past l.processor) (ops : List Operation) :
    Tracked (l.rememberAll past ops) (l.runAll ops).processor := by
  induction ops generalizing l past with
  | nil => exact h
  | cons op ops ih => exact ih (tracked_apply h op)

/-- An evaluator that is made without seeds and given some steps gets where another
    one is: it returns its field, and ends with its field and history. -/
def Replays (steps : List Value) (e : Field.Evaluator) : Prop :=
  ∀ debug, ∃ fresh, Field.Evaluator.new debug .null .null .standard = .ok fresh ∧
    (fresh.evaluate (.list steps)).outcome = .ok e.state.field ∧
    (fresh.evaluate (.list steps)).after.state = e.state

/-- The past that a processor is tracked by replays it. -/
theorem Tracked.replays {past : List Value} {e : Field.Evaluator} (h : Tracked past e) :
    Replays past e := by
  intro debug
  obtain ⟨htable, ms, hms, hs⟩ := h
  have hitems : (Value.list past).items? = .ok past := rfl
  have hcall := Field.Evaluator.evaluate_of_accepted (e := .standard debug) rfl hitems hms
  rw [htable] at hs
  refine ⟨.standard debug, rfl, ?_, ?_⟩
  · rw [hs]
    exact hcall.1
  · rw [hs]
    exact hcall.2

/-! ## Replacement -/

/-- Whoever refuses a derivation has a held guard or a step to blame. -/
theorem blame_of_refused {e : Field.Evaluator} {derivation : Value} {reason : EvalError}
    (h : (e.evaluate derivation).outcome = .error (.evaluation reason)) :
    e.shell.inFlight = true ∨ ∃ steps n v, derivation.items? = .ok steps ∧ steps[n]? = some v ∧
      Field.Rejected (1 + n) v reason := by
  generalize hoe : (e.evaluate derivation).outcome = outcome at h
  cases hoe ▸ e.ends derivation with
  | busy hf => exact .inl hf
  | unreadable | accepted => cases h
  | rejected _ hi ha =>
    obtain rfl := EvalError.eq_of_raised (Except.error.inj h)
    obtain ⟨n, v, hv, hr⟩ := Field.rejected_of_acceptAll ha
    exact .inr ⟨_, n, v, hi, hv, hr⟩

/-- The state of the processor after an operation that does not make the loop
    replace it. -/
def kept (l : Loop) (op : Operation) : Field.State :=
  match l.work? op with
  | none => l.processor.state
  | some derivation => (l.processor.evaluate derivation).after.state

/-- Every operation that hands the processor what it refuses makes the loop replace
    it; no other one does, or takes back what the processor has accepted. -/
theorem replaced_or_kept (l : Loop) (op : Operation) :
    (l.Refuses op ∧ (op.apply l).processor = .standard l.debug ∧
        (op.apply l).rebuilds = l.rebuilds + 1) ∨
      (¬ l.Refuses op ∧ (op.apply l).processor.state = l.kept op ∧
        (op.apply l).rebuilds = l.rebuilds) := by
  have ht := l.treats op
  rw [Refuses, kept]
  generalize (op.apply l).processor = e, (op.apply l).rebuilds = n, l.work? op = work at ht ⊢
  cases ht with
  | spared hs =>
    refine .inr ⟨?_, hs, rfl⟩
    rintro ⟨_, _, hw, -⟩
    cases hw
  | accepted ho =>
    refine .inr ⟨?_, rfl, rfl⟩
    rintro ⟨_, _, hw, hr⟩
    cases hw
    rw [ho] at hr
    cases hr
  | refused ho => exact .inl ⟨⟨_, _, rfl, ho⟩, rfl, rfl⟩

/-- The processor is a replay of its past, and is replaced exactly if it refuses a
    derivation. Whatever is done with a loop and whatever its surroundings answer,
    a new evaluator that is given, in order, the steps the processor has accepted
    since it was new returns its field and ends with its field and history. And an
    operation makes any loop replace its processor iff this refuses what the
    operation hands to it, for which its guard or a step is to blame; else the
    processor keeps its state and what it accepts, however the operation ends. -/
theorem processor_replays (agentId : String) (surroundings : Surroundings)
    (agentState : List (Value × Value)) (debug : Value) :
    (∀ ops : List Operation,
      Replays ((Loop.new agentId surroundings agentState debug).rememberAll [] ops)
        ((Loop.new agentId surroundings agentState debug).runAll ops).processor) ∧
    ∀ (l : Loop) (op : Operation),
      (∃ derivation reason, l.work? op = some derivation ∧
        (l.processor.evaluate derivation).outcome = .error (.evaluation reason) ∧
        (l.processor.shell.inFlight = true ∨
          ∃ steps n v, derivation.items? = .ok steps ∧ steps[n]? = some v ∧
            Field.Rejected (1 + n) v reason) ∧
        (op.apply l).processor = .standard l.debug ∧
        (op.apply l).rebuilds = l.rebuilds + 1) ∨
      (¬ l.Refuses op ∧ (op.apply l).processor.state = l.kept op ∧
        (op.apply l).rebuilds = l.rebuilds) := by
  refine ⟨fun ops => ?_, fun l op => ?_⟩
  · exact (tracked_runAll (tracked_standard debug) ops).replays
  · rcases l.replaced_or_kept op with ⟨⟨derivation, reason, hw, ho⟩, hreplaced⟩ | hkept
    · exact .inl ⟨derivation, reason, hw, ho, blame_of_refused ho, hreplaced⟩
    · exact .inr hkept

/-- Of a cycle whose handler gives up, one that finds the guard held and one that
    is completed, the processor has accepted the first and the last; the guard that
    was held by the second made the loop forget the first. -/
theorem processor_replays_of_failed_cycles :
    ∃ l : Loop, l = (Loop.new "agent" ⟨queue [⟨"first", .list [.morphism .conj], .int 1⟩,
        ⟨"second", .list [.int 2], .null⟩, ⟨"third", .list [.morphism .neg, .int 4], .null⟩],
        steady "now", some refusing⟩ [] .null).runAll [.run, .lock, .run, .run] ∧
      ∃ fresh, Field.Evaluator.new .null .null .null .standard = .ok fresh ∧
        (fresh.evaluate (.list [.morphism .neg, .int 4])).after.state = l.processor.state := by
  obtain ⟨fresh, hnew, -, hstate⟩ := (processor_replays "agent"
    ⟨queue [⟨"first", .list [.morphism .conj], .int 1⟩, ⟨"second", .list [.int 2], .null⟩,
      ⟨"third", .list [.morphism .neg, .int 4], .null⟩], steady "now", some refusing⟩
    [] .null).1 [.run, .lock, .run, .run] .null
  exact ⟨_, rfl, fresh, hnew, hstate⟩

end Loop

end Reflex

end Heptad
