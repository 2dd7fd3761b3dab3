import Heptad.Proofs.Stack.Loop

/-!
# Runs with another count

The machine does not look at how many steps it has counted, nor at what it has put on
record. The count shows in one failure only, which says the number of the step that is
none. So two runs of one derivation whose sessions differ in the count and the record
go on in step, their counts apart by as much as before.

* `Recounted`: sessions that differ so;
* `Failure.category`, `Failure.code?`: what failures are told apart by, which the number
  of a step is no part of;
* `Recounted.transition`: the machine takes the same transitions in both;
* `recounted_runSteps`: so runs come to the same end;
* `Next.Recounted.result`: and derivations to the same result.
-/

namespace Heptad

/-! ## Failures -/

/-- What a failure is about: a kind of reason of the evaluation itself, or a kind of
    fault. -/
def Failure.category : Failure → ErrorKind ⊕ FaultKind
  | .evaluation e => .inl e.kind
  | .fault f => .inr f.kind

/-- The code of a failure, if it has one. -/
def Failure.code? : Failure → Option String
  | .evaluation e => some e.code
  | .fault _ => none

namespace Stack

/-- Failures that are the same, up to the number of a step. -/
inductive Renumbered : Failure → Failure → Prop
  | refl (f : Failure) : Renumbered f f
  | notAStep (i j : Nat) (step : Value) :
      Renumbered (EvalError.notAStep i step).raised (EvalError.notAStep j step).raised

/-- Whether the number of a step can be worded does not depend on it. -/
theorem raised_notAStep (i j : Nat) (step : Value) :
    ((EvalError.notAStep i step).raised = .evaluation (.notAStep i step) ∧
      (EvalError.notAStep j step).raised = .evaluation (.notAStep j step)) ∨
    (EvalError.notAStep i step).raised = (EvalError.notAStep j step).raised := by
  cases h : step.isShowable with
  | true => exact .inl ⟨EvalError.raised_of_showable h, EvalError.raised_of_showable h⟩
  | false =>
    have raised (n : Nat) : (EvalError.notAStep n step).raised = .fault .tooManyDigits :=
      EvalError.raised_of_not_showable h
    exact .inr ((raised i).trans (raised j).symm)

theorem Renumbered.alike {f g : Failure} (h : Renumbered f g) :
    f.category = g.category ∧ f.code? = g.code? := by
  cases h with
  | refl => exact ⟨rfl, rfl⟩
  | notAStep i j step =>
    rcases raised_notAStep i j step with ⟨hi, hj⟩ | hij
    · rw [hi, hj]
      exact ⟨rfl, rfl⟩
    · rw [hij]
      exact ⟨rfl, rfl⟩

/-- Runs that end alike: with the same value and the same warnings, or with failures that
    cannot be told apart but by their wording. -/
inductive SameEnd :
    Except Failure Value × List String → Except Failure Value × List String → Prop
  | returned (v : Value) (warnings : List String) : SameEnd (.ok v, warnings) (.ok v, warnings)
  | failed {f g : Failure} {warnings warnings' : List String} :
      f.category = g.category → f.code? = g.code? →
      SameEnd (.error f, warnings) (.error g, warnings')

/-! ## Sessions -/

/-- A session in which `n` steps more have been counted, by an evaluator of the same name
    that is debugged alike, with the same warnings. What is on record can be anything. -/
structure Recounted (n : Nat) (s s' : Session Event) : Prop where
  steps : s'.steps = s.steps + n
  warnings : s'.warnings = s.warnings
  source : s'.tracer.source = s.tracer.source
  debug : s'.tracer.debug = s.tracer.debug

namespace Recounted

variable {n : Nat} {s s' : Session Event}

theorem refl (s : Session Event) : Recounted 0 s s := ⟨rfl, rfl, rfl, rfl⟩

theorem trans {m : Nat} {s'' : Session Event} (h : Recounted m s s') (h' : Recounted n s' s'') :
    Recounted (m + n) s s'' where
  steps := by rw [h'.steps, h.steps, Nat.add_assoc]
  warnings := h'.warnings.trans h.warnings
  source := h'.source.trans h.source
  debug := h'.debug.trans h.debug

theorem tick (h : Recounted n s s') : Recounted n s.tick s'.tick :=
  ⟨(congrArg (· + 1) h.steps).trans (Nat.add_right_comm s.steps n 1), h.warnings, h.source,
    h.debug⟩

theorem record (h : Recounted n s s') (e e' : Event) : Recounted n (s.record e) (s'.record e') :=
  ⟨h.steps, h.warnings, h.source, h.debug⟩

theorem warn (h : Recounted n s s') (message : String) (e e' : Event) :
    Recounted n (s.warn message e) (s'.warn message e') :=
  ⟨h.steps, congrArg (· ++ [message]) h.warnings, h.source, h.debug⟩

theorem callback_eq (h : Recounted n s s') : s'.callback = s.callback := by
  funext steps
  exact congrArg (fun source => Except.error (EvalError.inFlight source)) h.source

/-- A log adds the same to both. -/
theorem addTo (h : Recounted n s s') (log : Log) : Recounted n (log.addTo s) (log.addTo s') :=
  ⟨(congrArg (· + log.steps) h.steps).trans (Nat.add_right_comm s.steps n log.steps),
    congrArg (· ++ log.warnings) h.warnings, h.source, h.debug⟩

/-- One more step in the second session. -/
theorem succ (h : Recounted n s s') (e : Event) : Recounted (n + 1) s (s'.tick.record e) :=
  ⟨congrArg (· + 1) h.steps, h.warnings, h.source, h.debug⟩

/-- Recounted sessions record the same without failing. -/
theorem admits_eq (h : Recounted n s s') {e e' : Event}
    (he : e'.action.isShowable = e.action.isShowable) :
    s'.tracer.admits e' = s.tracer.admits e := by
  show (!s'.tracer.debug || e'.action.isShowable) = (!s.tracer.debug || e.action.isShowable)
  rw [h.debug, he]

/-- Derivations with the same stack end alike. -/
theorem endings {c c' : Config} (h : Recounted n c.session c'.session)
    (hs : c'.current.stack = c.current.stack) :
    (∃ t t', c.ending = .ok t ∧ c'.ending = .ok t' ∧ Recounted n t t') ∨
      ∃ failure, c.ending = .error failure ∧ c'.ending = .error failure := by
  rcases Config.endings_of_stack hs with ⟨he, he'⟩ | ⟨message, he, he'⟩ | ⟨he, he'⟩
  · exact .inl ⟨_, _, he, he', h⟩
  · exact .inl ⟨_, _, he, he', h.warn message _ _⟩
  · exact .inr ⟨_, he, he'⟩

theorem ending {c c' : Config} (h : Recounted n c.session c'.session)
    (hs : c'.current.stack = c.current.stack) {t : Session Event} (hending : c.ending = .ok t) :
    ∃ t', c'.ending = .ok t' ∧ Recounted n t t' := by
  rcases h.endings hs with ⟨u, t', he, he', ht⟩ | ⟨failure, he, -⟩ <;> cases hending.symm.trans he
  exact ⟨t', he', ht⟩

/-- The first one does if the second one does. -/
theorem ending_left {c c' : Config} (h : Recounted n c.session c'.session)
    (hs : c'.current.stack = c.current.stack) {t' : Session Event} (hending : c'.ending = .ok t') :
    ∃ t, c.ending = .ok t ∧ Recounted n t t' := by
  rcases h.endings hs with ⟨t, u, he, he', ht⟩ | ⟨failure, -, he⟩
  · cases hending.symm.trans he'
    exact ⟨t, he, ht⟩
  · cases hending.symm.trans he

end Recounted

/-! ## Transitions -/

/-- How two outcomes compare whose failures may be numbered differently. -/
inductive SameOutcome : Except Failure Value → Except Failure Value → Prop
  | value (v : Value) : SameOutcome (.ok v) (.ok v)
  | failure {f g : Failure} : Renumbered f g → SameOutcome (.error f) (.error g)

/-- Configurations that differ in their sessions only, or ends of runs that do. -/
inductive Next.Recounted (n : Nat) : Next → Next → Prop
  | running (f : Frame) (callers : List Pending) {s s' : Session Event} :
      Stack.Recounted n s s' →
      Next.Recounted n (.running ⟨f, callers, s⟩) (.running ⟨f, callers, s'⟩)
  | halted {outcome outcome' : Except Failure Value} {s s' : Session Event} :
      SameOutcome outcome outcome' → Stack.Recounted n s s' →
      Next.Recounted n (.halted outcome s) (.halted outcome' s')

variable {limit : Value} {n : Nat} {f : Frame} {callers : List Pending} {s s' : Session Event}

/-- What follows two transitions to the same frame that are described alike. -/
theorem Recounted.proceed (hs : Recounted n s s') {g g' frame : Frame} {action action' : Action}
    (ha : action'.isShowable = action.isShowable) :
    Next.Recounted n (Config.proceed ⟨g, callers, s⟩ frame action)
      (Config.proceed ⟨g', callers, s'⟩ frame action') := by
  have hadmits : s'.tracer.admits ⟨s'.steps, action'⟩ = s.tracer.admits ⟨s.steps, action⟩ :=
    hs.admits_eq ha
  rw [Config.proceed, Config.proceed, Config.event, Config.event]
  dsimp only
  rw [hadmits]
  split
  · exact .running _ _ (hs.record _ _)
  · exact .halted (.failure (.refl _)) (hs.record _ _)

/-- A step that fails does so in both, up to its number. -/
theorem Config.Fails.recounted {step : Value} {failure : Failure}
    (h : Config.Fails limit ⟨f, callers, s⟩ step failure) (hs : Recounted n s s') :
    ∃ failure', Config.Fails limit ⟨f, callers, s'⟩ step failure' ∧
      Renumbered failure failure' := by
  cases h with
  | target ht => exact ⟨_, .target ht, .refl _⟩
  | operands ht hl => exact ⟨_, .operands ht hl, .refl _⟩
  | primitive ht hl hc =>
    have hc' := hc
    rw [← hs.callback_eq] at hc'
    exact ⟨_, .primitive ht hl hc', .refl _⟩
  | condOperands hl => exact ⟨_, .condOperands hl, .refl _⟩
  | nesting hstack hv he => exact ⟨_, .nesting hstack hv he, .refl _⟩
  | notAStep hstep => exact ⟨_, .notAStep hstep, .notAStep _ _ _⟩

/-- The derivation moves on in the same way. -/
theorem Recounted.moves (hs : Recounted n s s') {d : Config} {frame : Frame} {action : Action}
    (h : Config.Moves ⟨f, callers, s⟩ d frame action) :
    ∃ d', Config.Moves ⟨f, callers, s'⟩ d' frame action ∧ d'.callers = d.callers ∧
      Recounted n d.session d'.session := by
  cases h with
  | pushed hr hp => exact ⟨_, .pushed hr hp, rfl, hs.tick⟩
  | applied hr ht ha hc =>
    have hc' := hc
    rw [Config.ticked, ← hs.tick.callback_eq] at hc'
    exact ⟨_, .applied hr ht ha hc', rfl, hs.tick⟩
  | decided hr hstack hv => exact ⟨_, .decided hr hstack hv, rfl, hs.tick⟩
  | returned hr hv hc hending =>
    have hsame : (⟨f, callers, s'⟩ : Config).current.stack =
      (⟨f, callers, s⟩ : Config).current.stack := rfl
    obtain ⟨t', hending', ht'⟩ := hs.ending hsame hending
    exact ⟨_, .returned hr hv hc hending', rfl, ht'⟩

/-- The machine takes the same transitions. -/
theorem Recounted.transition (hs : Recounted n s s') {next : Next}
    (h : Config.Transition limit ⟨f, callers, s⟩ next) :
    ∃ next', Config.Transition limit ⟨f, callers, s'⟩ next' ∧ Next.Recounted n next next' := by
  have hsame : (⟨f, callers, s'⟩ : Config).current.stack =
    (⟨f, callers, s⟩ : Config).current.stack := rfl
  cases h with
  | @moved d frame action hm ha =>
    obtain ⟨⟨_, callers', t'⟩, hm', rfl, ht'⟩ := hs.moves hm
    have ha' : t'.tracer.admits ⟨t'.steps, action⟩ = true := (ht'.admits_eq rfl).trans ha
    exact ⟨_, .moved hm' ha', .running _ _ (ht'.record _ _)⟩
  | @undescribed d frame action hm ha =>
    obtain ⟨⟨_, callers', t'⟩, hm', rfl, ht'⟩ := hs.moves hm
    have ha' : t'.tracer.admits ⟨t'.steps, action⟩ = false := (ht'.admits_eq rfl).trans ha
    exact ⟨_, .undescribed hm' ha', .halted (.failure (.refl _)) (ht'.record _ _)⟩
  | entered hr hstack hv he => exact ⟨_, .entered hr hstack hv he, .running _ _ hs.tick⟩
  | failed hr hf =>
    obtain ⟨failure', hf', hrenumbered⟩ := hf.recounted hs.tick
    exact ⟨_, .failed hr hf', .halted (.failure hrenumbered) hs.tick⟩
  | finished hr hv hc hending =>
    obtain ⟨t', hending', ht'⟩ := hs.ending hsame hending
    exact ⟨_, .finished hr hv hc hending', .halted (.value _) ht'⟩
  | unwarned hr hv hending =>
    exact ⟨_, .unwarned hr hv (ending_eq_error_of_stack hsame hending),
      .halted (.failure (.refl _)) hs⟩
  | emptied hr hstack => exact ⟨_, .emptied hr hstack, .halted (.failure (.refl _)) hs⟩

theorem Recounted.next (hs : Recounted n s s') (limit : Value) (f : Frame)
    (callers : List Pending) :
    Next.Recounted n (Config.next limit ⟨f, callers, s⟩) (Config.next limit ⟨f, callers, s'⟩) := by
  obtain ⟨next', hnext', h⟩ := hs.transition (Config.transition_next limit ⟨f, callers, s⟩)
  rwa [Config.next_of_transition hnext']

/-! ## Runs -/

/-- The steps of a derivation come to the same end. -/
theorem recounted_runSteps (limit : Value) (depth : Nat) {c : Config} {s' : Session Event}
    (hs : Recounted n c.session s') :
    Next.Recounted n (runSteps limit depth c) (runSteps limit depth { c with session := s' }) := by
  induction c using runSteps.induct limit depth generalizing s' with
  | case1 c he =>
    have he' : Config.AtEnd depth { c with session := s' } := he
    rw [runSteps_of_atEnd limit he, runSteps_of_atEnd limit he']
    exact .running _ _ hs
  | case2 c he outcome t hn =>
    have he' : ¬ Config.AtEnd depth { c with session := s' } := he
    have hnext := hs.next limit c.current c.callers
    rw [runSteps_of_halted he hn]
    rw [hn] at hnext
    generalize hn' : Config.next limit { c with session := s' } = next' at hnext
    cases hnext with
    | halted houtcome ht =>
      rw [runSteps_of_halted he' hn']
      exact .halted houtcome ht
  | case3 c he c₁ hn ih =>
    have he' : ¬ Config.AtEnd depth { c with session := s' } := he
    have hnext := hs.next limit c.current c.callers
    rw [runSteps_of_running he hn]
    rw [hn] at hnext
    generalize hn' : Config.next limit { c with session := s' } = next' at hnext
    cases hnext with
    | running g callers ht =>
      rw [runSteps_of_running he' hn']
      exact ih ht

/-- The second one can be told from the first. -/
theorem Next.Recounted.exists_running {next : Next} {c : Config}
    (h : Next.Recounted n next (.running c)) :
    ∃ c', next = .running c' ∧ c'.current.stack = c.current.stack ∧
      Stack.Recounted n c'.session c.session := by
  cases h with
  | running f callers hs => exact ⟨_, rfl, rfl, hs⟩

/-- If the transitions from two configurations do, so do the steps that follow. -/
theorem Next.Recounted.runSteps {next next' : Next} (h : Next.Recounted n next next')
    (limit : Value) (depth : Nat) :
    Next.Recounted n (next.runSteps limit depth) (next'.runSteps limit depth) := by
  cases h with
  | running g callers hs => exact recounted_runSteps limit depth hs
  | halted houtcome hs => exact .halted houtcome hs

/-- What derivations result in that come to the same end. -/
theorem Next.Recounted.result {next next' : Next} (h : Next.Recounted n next next') :
    SameOutcome next.result.1 next'.result.1 ∧
      Stack.Recounted n next.result.2 next'.result.2 := by
  cases h with
  | halted houtcome hs => exact ⟨houtcome, hs⟩
  | @running g callers s s' hs =>
    rw [Next.result, Next.result]
    dsimp only
    cases g.stack.getLast? with
    | none => exact ⟨.failure (.refl _), hs⟩
    | some v =>
      have hsame : (⟨g, callers, s'⟩ : Config).current.stack =
        (⟨g, callers, s⟩ : Config).current.stack := rfl
      dsimp only
      cases hending : Config.ending ⟨g, callers, s⟩ with
      | error failure =>
        rw [ending_eq_error_of_stack hsame hending]
        exact ⟨.failure (.refl _), hs⟩
      | ok t =>
        obtain ⟨t', hending', ht'⟩ := Stack.Recounted.ending hs hsame hending
        rw [hending']
        exact ⟨.value v, ht'⟩

/-- Recounted runs end alike, their counts apart. -/
theorem Next.Recounted.sameEnd {next next' : Next} (h : Next.Recounted n next next') :
    SameEnd (next.result.1, next.result.2.warnings) (next'.result.1, next'.result.2.warnings) ∧
      next'.result.2.steps = next.result.2.steps + n := by
  obtain ⟨houtcome, hs⟩ := h.result
  refine ⟨?_, hs.steps⟩
  rw [hs.warnings]
  generalize next.result.1 = outcome, next'.result.1 = outcome' at houtcome
  cases houtcome with
  | value v => exact .returned v _
  | failure hf => exact .failed hf.alike.1 hf.alike.2

end Stack

end Heptad
