import Heptad.Proofs.Stack.Composition
import Heptad.Proofs.Stack.Dry
import Heptad.Proofs.Stack.Limit

/-!
# The books of a run

A run counts a step before it executes it and puts it on record afterwards, so that the
count is ahead of the record by the steps in between: the conditionals that wait for
their branches, and, if the run fails in a step, this step. With debugging it can also
fail right after it has put a step on record, which is then not missing. Warnings are kept
twice, as messages and among the events; one that cannot be worded is what the run fails
with.

* `Booked`: what count, warnings and record of a session have to do with each other;
* `booked_of_next`, `booked_of_comesTo`: a transition keeps the books, and so does
  a run;
* `endings`, `warnings_run`: the stacks of derivations that come to an end, one warning
  for each that holds more than one value;
* `Site`, `Config.HaltsAt`, `FailsAt`: where a run fails, which tells how many steps are
  missing on record;
* `Evaluator.bookkeeping_agrees`: hence the books of a call, however it ends;
* `Evaluator.unwarned_of_huge`: a derivation that ends with two values without a warning.
-/

namespace Heptad.Stack

/-! ## Events -/

/-- The message of a warning. -/
def Event.message? (e : Event) : Option String :=
  match e.action with
  | .warned message => some message
  | _ => none

/-- The events that are about steps: all but the warnings. -/
def stepEvents (events : List Event) : List Event := events.filter fun e => !e.isWarning

variable {e : Event} {events : List Event}

theorem stepEvents_concat_of_step (h : e.isWarning = false) :
    stepEvents (events ++ [e]) = stepEvents events ++ [e] := by
  rw [stepEvents, List.filter_append, List.filter_singleton, h]
  rfl

theorem stepEvents_concat_of_warning (h : e.isWarning = true) :
    stepEvents (events ++ [e]) = stepEvents events := by
  rw [stepEvents, List.filter_append, List.filter_singleton, h]
  exact List.append_nil _

theorem Event.message?_of_step (h : e.isWarning = false) : e.message? = none := by
  rw [isWarning] at h
  rw [message?]
  split
  · rename_i message ha
    rw [ha] at h
    cases h
  · rfl

/-- A step that pushes is put on record as such. -/
theorem isWarning_of_pushes {step v : Value} {action : Nat → Action} (h : Pushes step v action)
    (n depth : Nat) : Event.isWarning ⟨n, action depth⟩ = false := by
  cases h with
  | literal | morphism | sub => rfl

/-! ## Sessions -/

/-- The books of a session in which some steps were begun that are not on record yet. -/
structure Booked (begun : Nat) (s : Session Event) : Prop where
  /-- The warnings are those on record. -/
  warnings : s.warnings = s.tracer.events.filterMap Event.message?
  /-- All other steps are on record. -/
  steps : s.steps = (stepEvents s.tracer.events).length + begun
  /-- The events are in the order of their numbers. -/
  ordered : (s.tracer.events.map Event.step).Pairwise (· ≤ ·)
  /-- No event has the number of a step that was not begun. -/
  bounded : ∀ n ∈ s.tracer.events.map Event.step, n ≤ s.steps

namespace Booked

variable {begun : Nat} {s : Session Event}

theorem tick (h : Booked begun s) : Booked (begun + 1) s.tick where
  warnings := h.warnings
  steps := congrArg (· + 1) h.steps
  ordered := h.ordered
  bounded n hn := Nat.le_succ_of_le (h.bounded n hn)

/-- Events with the number of the latest step are in order. -/
theorem ordered_concat (h : Booked begun s) (action : Action) :
    ((s.tracer.events ++ [Event.mk s.steps action]).map Event.step).Pairwise (· ≤ ·) := by
  rw [List.map_append, List.pairwise_append]
  refine ⟨h.ordered, List.pairwise_singleton _ _, fun n hn m hm => ?_⟩
  obtain rfl := List.mem_singleton.1 hm
  exact h.bounded n hn

theorem bounded_concat (h : Booked begun s) (action : Action) :
    ∀ n ∈ (s.tracer.events ++ [Event.mk s.steps action]).map Event.step, n ≤ s.steps := by
  intro n hn
  rw [List.map_append, List.mem_append] at hn
  rcases hn with hn | hn
  · exact h.bounded n hn
  · exact Nat.le_of_eq (List.mem_singleton.1 hn)

/-- One of the steps begun is put on record. -/
theorem record (h : Booked (begun + 1) s) {action : Action}
    (ha : Event.isWarning ⟨s.steps, action⟩ = false) :
    Booked begun (s.record ⟨s.steps, action⟩) where
  warnings := by
    show s.warnings = (s.tracer.events ++ [Event.mk s.steps action]).filterMap Event.message?
    rw [List.filterMap_append, ← h.warnings, List.filterMap_cons_none (Event.message?_of_step ha)]
    exact (List.append_nil _).symm
  steps := by
    show s.steps = (stepEvents (s.tracer.events ++ [⟨s.steps, action⟩])).length + begun
    rw [stepEvents_concat_of_step ha, List.length_append, h.steps]
    exact Nat.add_right_comm _ begun 1
  ordered := h.ordered_concat action
  bounded := h.bounded_concat action

/-- A warning is kept twice, and is about no step. -/
theorem warn (h : Booked begun s) (message : String) :
    Booked begun (s.warn message ⟨s.steps, .warned message⟩) where
  warnings := by
    show s.warnings ++ [message] =
      (s.tracer.events ++ [Event.mk s.steps (.warned message)]).filterMap Event.message?
    rw [List.filterMap_append, h.warnings]
    rfl
  steps := by
    show s.steps = (stepEvents (s.tracer.events ++ [⟨s.steps, .warned message⟩])).length + begun
    rw [stepEvents_concat_of_warning rfl]
    exact h.steps
  ordered := h.ordered_concat _
  bounded := h.bounded_concat _

end Booked

variable {limit : Value} {c d : Config}

/-- The end of a derivation keeps the books, with or without a warning. -/
theorem Booked.ending {begun : Nat} {t : Session Event} (h : Booked begun c.session)
    (he : c.ending = .ok t) : Booked begun t := by
  rcases c.ending_cases with ⟨-, he'⟩ | ⟨-, -, he'⟩ | ⟨-, -, he'⟩ <;> cases he.symm.trans he'
  · exact h
  · exact h.warn _

/-! ## Runs -/

/-- A derivation that moves on keeps the books: the steps begun that are not on record are
    the conditionals that still wait. -/
theorem booked_of_moves {frame : Frame} {action : Action} (hm : Config.Moves c d frame action)
    (h : Booked c.depth c.session) : Booked d.depth (d.moved frame action).session := by
  have hticked : Booked (c.depth + 1) c.ticked.session := h.tick
  cases hm with
  | pushed hr hp => exact hticked.record (isWarning_of_pushes hp _ _)
  | applied | decided => exact hticked.record rfl
  | @returned p callers v session hr hv hcallers he =>
    have hdepth : c.depth = callers.length + 1 := congrArg List.length hcallers
    rw [hdepth] at h
    exact (h.ending he).record rfl

/-- A transition keeps the books: the steps begun that are not on record are the
    conditionals whose branches are being run. -/
theorem booked_of_next (hn : c.next limit = .running d) (h : Booked c.depth c.session) :
    Booked d.depth d.session := by
  generalize hnext : Next.running d = next at hn
  cases Config.next_eq_iff.1 hn with
  | moved hm =>
    cases hnext
    exact booked_of_moves hm h
  | entered =>
    cases hnext
    exact h.tick
  | undescribed | failed | finished | unwarned | emptied => cases hnext

/-- A run keeps the books. -/
theorem booked_of_comesTo (hd : ComesTo limit c d) (h : Booked c.depth c.session) :
    Booked d.depth d.session := by
  induction hd with
  | refl => exact h
  | tail _ hn ih => exact booked_of_next hn ih

/-- When it returns, all steps are on record. -/
theorem booked_of_returned {v : Value} {s : Session Event}
    (hn : c.next limit = .halted (.ok v) s) (h : Booked c.depth c.session) : Booked 0 s := by
  cases Config.next_eq_iff.1 hn with
  | finished hr hv hcallers he =>
    have hdepth : c.depth = 0 := congrArg List.length hcallers
    rw [hdepth] at h
    exact h.ending he

/-! ## Failures -/

/-- Where a run fails: on entering a derivation, in one of its steps, in describing what is
    on record of one, or at its end, and how deep the derivation is nested. -/
inductive Site where
  | entry (depth : Nat)
  | step (depth : Nat)
  | record (depth : Nat)
  | exit (depth : Nat)

namespace Site

/-- The steps begun that are not on record: the conditionals around the derivation, and
    the step that failed. -/
def begun : Site → Nat
  | entry depth | record depth | exit depth => depth
  | step depth => depth + 1

/-- The reasons there are for a failure at a site. A derivation is not entered for its
    depth; a step has reasons of its own; at its end a derivation has no result. What has
    no text is another reason to fail at its end, and the only one to fail in describing
    what is on record. -/
def Admits (limit : Value) (failure : Failure) : Site → Prop
  | entry depth => enter limit depth = .error failure
  | step _ => ∃ reason : EvalError, failure = reason.raised ∧ reason.code ≠ depthCode ∧
      reason.kind ≠ .emptyResult
  | record _ => failure = .fault .tooManyDigits
  | exit _ => failure = .evaluation .noResult ∨ failure = .fault .tooManyDigits

end Site

namespace Config

/-- Whether the next step is a conditional that chooses a sub-derivation. -/
def branches (c : Config) : Bool :=
  match c.current.rest, c.current.stack with
  | .morphism .cond :: _, e :: t :: b :: _ =>
    match chosen b t e with
    | .sub _ => true
    | _ => false
  | _, _ => false

/-- Where a configuration halts for a failure. -/
inductive HaltsAt (limit : Value) (c : Config) : Site → Failure → Prop
  | entry {step : Value} {rest : List Value} {failure : Failure} :
      c.current.rest = step :: rest → c.branches = true → Fails limit c.ticked step failure →
      HaltsAt limit c (.entry (c.depth + 1)) failure
  | step {step : Value} {rest : List Value} {failure : Failure} :
      c.current.rest = step :: rest → c.branches = false → Fails limit c.ticked step failure →
      HaltsAt limit c (.step c.depth) failure
  | record {d : Config} {frame : Frame} {action : Action} :
      Moves c d frame action → d.session.tracer.admits (d.event action) = false →
      HaltsAt limit c (.record d.depth) (.fault .tooManyDigits)
  | emptied : c.current.rest = [] → c.current.stack = [] →
      HaltsAt limit c (.exit c.depth) (.evaluation .noResult)
  | unwarned {v : Value} {failure : Failure} :
      c.current.rest = [] → c.current.stack.getLast? = some v → c.ending = .error failure →
      HaltsAt limit c (.exit c.depth) failure

theorem branches_of_stack {rest below steps : List Value} {e t b : Value}
    (hr : c.current.rest = .morphism .cond :: rest) (hs : c.current.stack = e :: t :: b :: below)
    (hv : chosen b t e = .sub steps) : c.branches = true := by
  rw [branches, hr, hs]
  dsimp only
  rw [hv]

theorem branches_of_ne_cond {step : Value} {rest : List Value}
    (hr : c.current.rest = step :: rest) (h : step ≠ .morphism .cond) : c.branches = false := by
  rw [branches, hr]
  split
  · rename_i heq _
    cases heq
    exact absurd rfl h
  · rfl

theorem branches_of_few (h : c.current.stack.length < 3) : c.branches = false := by
  rw [branches]
  split
  · rename_i hs
    rw [hs] at h
    simp only [List.length_cons] at h
    omega
  · rfl

/-- A step that enters no branch fails for one of its own reasons. -/
theorem admits_step {step : Value} {rest : List Value} {failure : Failure} {depth : Nat}
    (hr : c.current.rest = step :: rest) (hb : c.branches = false)
    (h : Fails limit c.ticked step failure) : (Site.step depth).Admits limit failure := by
  have hreason {reason : EvalError} (hdepth : ∀ depth limit, reason ≠ .tooDeep depth limit)
      (hkind : reason.kind ≠ .emptyResult) : (Site.step depth).Admits limit reason.raised := by
    refine ⟨reason, rfl, fun hcode => ?_, hkind⟩
    obtain ⟨depth, limit', rfl⟩ := code_eq_depthCode_iff.1 hcode
    exact hdepth depth limit' rfl
  cases h with
  | target ht =>
    rcases target_eq_error ht with rfl | ⟨_, rfl⟩ | ⟨_, rfl⟩ <;> exact hreason nofun nofun
  | operands | primitive | condOperands | notAStep => exact hreason nofun nofun
  | nesting hs hv =>
    rw [branches_of_stack hr hs hv] at hb
    cases hb

/-- A step that enters a branch fails for its depth, if it fails. -/
theorem admits_entry {step : Value} {rest : List Value} {failure : Failure}
    (hr : c.current.rest = step :: rest) (hb : c.branches = true)
    (h : Fails limit c.ticked step failure) :
    (Site.entry (c.depth + 1)).Admits limit failure := by
  have hnot (hb' : c.branches = false) : (Site.entry (c.depth + 1)).Admits limit failure :=
    absurd (hb.symm.trans hb') Bool.true_eq_false.mp
  cases h with
  | target | operands | primitive => exact hnot (branches_of_ne_cond hr nofun)
  | condOperands hl => exact hnot (branches_of_few hl)
  | notAStep hs =>
    have hne : step ≠ .morphism .cond := by
      rintro rfl
      cases hs
    exact hnot (branches_of_ne_cond hr hne)
  | nesting hs hv he => exact he

/-- For a failure a configuration halts somewhere. -/
theorem exists_haltsAt {failure : Failure} {s : Session Event}
    (h : c.next limit = .halted (.error failure) s) : ∃ site, c.HaltsAt limit site failure := by
  cases next_eq_iff.1 h with
  | undescribed hm ha => exact ⟨_, .record hm ha⟩
  | emptied hr hs => exact ⟨_, .emptied hr hs⟩
  | unwarned hr hv he => exact ⟨_, .unwarned hr hv he⟩
  | failed hr hf =>
    cases hb : c.branches with
    | true => exact ⟨_, .entry hr hb hf⟩
    | false => exact ⟨_, .step hr hb hf⟩

/-- Where a run halts the steps missing on record are those the site tells, and the reason
    is one there is at the site. -/
theorem HaltsAt.booked {site : Site} {failure : Failure} (h : c.HaltsAt limit site failure)
    (hb : Booked c.depth c.session) :
    (∃ s, c.next limit = .halted (.error failure) s ∧ Booked site.begun s) ∧
      site.Admits limit failure := by
  cases h with
  | entry hr hbranches hf =>
    exact ⟨⟨_, next_of_transition (.failed hr hf), hb.tick⟩, admits_entry hr hbranches hf⟩
  | step hr hbranches hf =>
    exact ⟨⟨_, next_of_transition (.failed hr hf), hb.tick⟩, admits_step hr hbranches hf⟩
  | record hm ha =>
    exact ⟨⟨_, next_of_transition (.undescribed hm ha), booked_of_moves hm hb⟩, rfl⟩
  | emptied hr hs => exact ⟨⟨_, next_of_transition (.emptied hr hs), hb⟩, .inl rfl⟩
  | unwarned hr hv he =>
    exact ⟨⟨_, next_of_transition (.unwarned hr hv he), hb⟩,
      .inr (eq_tooManyDigits_of_ending he)⟩

end Config

/-- A run of steps fails at a site, and for a reason: it is not entered at all, or comes to
    where it fails. -/
inductive FailsAt (limit : Value) (steps : List Value) (session : Session Event) :
    Site → Failure → Prop
  | unentered {failure : Failure} : enter limit 0 = .error failure →
      FailsAt limit steps session (.entry 0) failure
  | inside {c : Config} {site : Site} {failure : Failure} : enter limit 0 = .ok () →
      ComesTo limit ⟨.start steps, [], session⟩ c → c.HaltsAt limit site failure →
      FailsAt limit steps session site failure

section

variable {steps : List Value} {session : Session Event}

/-- A run that fails does so somewhere. -/
theorem exists_failsAt {failure : Failure}
    (h : (runDerivation limit steps session).1 = .error failure) :
    ∃ site, FailsAt limit steps session site failure := by
  rcases runDerivation_cases limit steps session with ⟨reason, he, hreason⟩ | ⟨he, d, hd, hn⟩
  · cases h.symm.trans hreason
    exact ⟨_, .unentered he⟩
  · rw [h] at hn
    obtain ⟨site, hsite⟩ := Config.exists_haltsAt hn
    exact ⟨site, .inside he hd hsite⟩

/-- Where it fails, it leaves its books with what the site tells. -/
theorem FailsAt.booked {site : Site} {failure : Failure}
    (h : FailsAt limit steps session site failure) (hs : Booked 0 session) :
    (runDerivation limit steps session).1 = .error failure ∧
      Booked site.begun (runDerivation limit steps session).2 ∧ site.Admits limit failure := by
  rw [runDerivation]
  cases h with
  | unentered he =>
    rw [he]
    exact ⟨rfl, hs, he⟩
  | inside he hc hsite =>
    obtain ⟨⟨s, hn, hbooked⟩, hadmits⟩ := hsite.booked (booked_of_comesTo hc hs)
    rw [he]
    dsimp only
    rw [run_of_comesTo hc, run_of_halted hn]
    exact ⟨rfl, hbooked, hadmits⟩

/-- A run that returns has put all of its steps on record. -/
theorem booked_of_ok {v : Value} (h : (runDerivation limit steps session).1 = .ok v)
    (hs : Booked 0 session) : Booked 0 (runDerivation limit steps session).2 := by
  rcases runDerivation_cases limit steps session with ⟨failure, -, hfailure⟩ | ⟨-, d, hd, hn⟩
  · cases h.symm.trans hfailure
  · rw [h] at hn
    exact booked_of_returned hn (booked_of_comesTo hd hs)

end

/-! ## Derivations that come to an end -/

/-- The configurations a run goes through, the one it halts in included. -/
def course (limit : Value) (c : Config) : List Config :=
  match _h : c.next limit with
  | .halted _ _ => [c]
  | .running d => c :: course limit d
termination_by c.weight
decreasing_by exact Config.next_weight_lt _h

theorem course_of_halted {outcome : Except Failure Value} {session : Session Event}
    (h : c.next limit = .halted outcome session) : course limit c = [c] := by
  rw [course]
  split <;> simp_all

theorem course_of_running (h : c.next limit = .running d) :
    course limit c = c :: course limit d := by
  rw [course]
  split <;> simp_all

/-- The stack of a derivation that is at its end and has a value. -/
def Config.ended? (c : Config) : Option (List Value) :=
  match c.current.rest, c.current.stack with
  | [], v :: below => some (v :: below)
  | _, _ => none

/-- The stacks of the derivations that come to an end in a run, one after the other. -/
def endings (limit : Value) (c : Config) : List (List Value) :=
  (course limit c).filterMap Config.ended?

theorem endings_of_halted {outcome : Except Failure Value} {session : Session Event}
    (h : c.next limit = .halted outcome session) : endings limit c = c.ended?.toList := by
  rw [endings, course_of_halted h, List.filterMap_cons, List.filterMap_nil]
  cases c.ended? <;> rfl

theorem endings_of_running (h : c.next limit = .running d) :
    endings limit c = c.ended?.toList ++ endings limit d := by
  rw [endings, course_of_running h, List.filterMap_cons]
  cases c.ended? <;> rfl

/-- A warning for each stack that holds more than one value, all of which have a text. -/
def leftovers (ended : List (List Value)) : List String :=
  (ended.filter fun stack => 1 < stack.length && Value.areShowable stack).map Config.leftover

theorem leftovers_append (xs ys : List (List Value)) :
    leftovers (xs ++ ys) = leftovers xs ++ leftovers ys := by
  rw [leftovers, List.filter_append, List.map_append]
  rfl

theorem ended?_of_cons {step : Value} {rest : List Value} (h : c.current.rest = step :: rest) :
    c.ended? = none := by
  rw [Config.ended?, h]

theorem ended?_of_bottom {v : Value} (hr : c.current.rest = [])
    (hv : c.current.stack.getLast? = some v) : c.ended? = some c.current.stack := by
  rw [Config.ended?, hr]
  cases hs : c.current.stack with
  | nil =>
    rw [hs] at hv
    cases hv
  | cons top below => rfl

/-- The end of a derivation adds the warning that is due. -/
theorem warnings_ending {t : Session Event} (hne : c.current.stack ≠ []) (he : c.ending = .ok t) :
    t.warnings = c.session.warnings ++ leftovers [c.current.stack] := by
  rw [leftovers, List.filter_singleton]
  rcases c.ending_cases with ⟨hone, he'⟩ | ⟨hmany, hshown, he'⟩ | ⟨-, -, he'⟩ <;>
    cases he.symm.trans he'
  · rw [hone]
    exact (List.append_nil _).symm
  · have hpos := List.length_pos_iff.2 hne
    rw [hshown, decide_eq_true (by omega)]
    rfl

/-- A derivation at whose end the warning cannot be put together gives none. -/
theorem leftovers_of_ending {failure : Failure} (he : c.ending = .error failure) :
    leftovers [c.current.stack] = [] := by
  rw [leftovers, List.filter_singleton]
  rcases c.ending_cases with ⟨-, he'⟩ | ⟨-, -, he'⟩ | ⟨-, hshown, he'⟩ <;> cases he.symm.trans he'
  rw [hshown, Bool.and_false]
  rfl

/-- A derivation that moves on warns if it was at its end with more than one value. -/
theorem warnings_of_moves {frame : Frame} {action : Action} (hm : Config.Moves c d frame action) :
    d.session.warnings = c.session.warnings ++ leftovers c.ended?.toList := by
  cases hm with
  | pushed hr | applied hr | decided hr =>
    rw [ended?_of_cons hr]
    exact (List.append_nil _).symm
  | returned hr hv hcallers he =>
    rw [ended?_of_bottom hr hv]
    exact warnings_ending (List.ne_nil_of_mem (List.mem_of_getLast? hv)) he

/-- A transition warns if it ends a derivation that holds more than one value. -/
theorem warnings_of_transition {n : Next} (h : Config.Transition limit c n) :
    n.session.warnings = c.session.warnings ++ leftovers c.ended?.toList := by
  cases h with
  | moved hm | undescribed hm => exact (warnings_of_moves hm :)
  | entered hr | failed hr =>
    rw [ended?_of_cons hr]
    exact (List.append_nil _).symm
  | finished hr hv hcallers he =>
    rw [ended?_of_bottom hr hv]
    exact warnings_ending (List.ne_nil_of_mem (List.mem_of_getLast? hv)) he
  | unwarned hr hv he =>
    rw [ended?_of_bottom hr hv]
    exact (congrArg (c.session.warnings ++ ·) (leftovers_of_ending he)).symm ▸
      (List.append_nil _).symm
  | emptied hr hs =>
    rw [Config.ended?, hr, hs]
    exact (List.append_nil _).symm

/-- A run warns once for each derivation that ends with more than one value. -/
theorem warnings_run (limit : Value) (c : Config) :
    (run limit c).2.warnings = c.session.warnings ++ leftovers (endings limit c) := by
  induction c using run.induct limit with
  | case1 c outcome session hn =>
    rw [run_of_halted hn, endings_of_halted hn]
    exact warnings_of_transition (Config.next_eq_iff.1 hn)
  | case2 c d hn ih =>
    have hd : d.session.warnings = c.session.warnings ++ leftovers c.ended?.toList :=
      warnings_of_transition (Config.next_eq_iff.1 hn)
    rw [run_of_running hn, ih, hd, endings_of_running hn, leftovers_append, List.append_assoc]

/-! ## Calls of the evaluator -/

namespace Evaluator

/-- The stacks of the derivations that come to an end in an admitted call; none if its
    limit does not even allow the derivation itself. -/
def endings (e : Evaluator) (steps : List Value) : List (List Value) :=
  match enter e.limit 0 with
  | .error _ => []
  | .ok () => Stack.endings e.limit ⟨.start steps, [], e.opening steps⟩

variable {e : Evaluator} {derivation : Value} {steps : List Value}

/-- A call begins with books in which nothing is written yet. -/
theorem booked_opening (e : Evaluator) (steps : List Value) : Booked 0 (e.opening steps) where
  warnings := rfl
  steps := rfl
  ordered := .nil
  bounded := nofun

/-- A call warns once for each derivation that ends with more than one value. -/
theorem warnings_evaluate (hf : e.shell.inFlight = false) (hi : derivation.items? = .ok steps) :
    (e.evaluate derivation).after.shell.warnings = leftovers (e.endings steps) := by
  rw [(evaluate_of_steps hf hi).2, runDerivation, endings]
  cases enter e.limit 0 with
  | error failure => rfl
  | ok _ => exact (warnings_run e.limit _).trans (List.nil_append _)

/-- The books of a call made while the guard is free agree, however it ends. The warnings
    are those on record, one for each derivation that came to its end with more than one
    value, all of which have a text, and events are numbered in their order. If the call
    returns, there is an event for each step that was counted. Otherwise it has failed
    somewhere, and more steps were counted than are on record: as many as the derivation is
    deep, and one more if it has failed in a step. On entering a derivation the reason is its
    depth, or that this depth is to be named and has no text; at its end the lack of a result
    or a value without a text; in a step it is another one. -/
theorem bookkeeping_agrees (hf : e.shell.inFlight = false)
    (hi : derivation.items? = .ok steps) :
    let call := e.evaluate derivation
    let shell := call.after.shell
    let onRecord := (stepEvents shell.tracer.events).length
    shell.warnings = shell.tracer.events.filterMap Event.message? ∧
    shell.warnings = leftovers (e.endings steps) ∧
    (shell.tracer.events.map Event.step).Pairwise (· ≤ ·) ∧
    (∀ v, call.outcome = .ok v → onRecord = shell.steps) ∧
    (∀ failure, call.outcome = .error failure →
      ∃ site, FailsAt e.limit steps (e.opening steps) site failure) ∧
    ∀ site failure, FailsAt e.limit steps (e.opening steps) site failure →
      call.outcome = .error failure ∧ site.Admits e.limit failure ∧
        shell.steps = onRecord + site.begun := by
  have hopening := e.booked_opening steps
  obtain ⟨houtcome, hafter⟩ := evaluate_of_steps hf hi
  have hbooked : ∃ begun, Booked begun (runDerivation e.limit steps (e.opening steps)).2 := by
    cases ho : (runDerivation e.limit steps (e.opening steps)).1 with
    | ok v => exact ⟨_, booked_of_ok ho hopening⟩
    | error failure =>
      obtain ⟨site, hsite⟩ := exists_failsAt ho
      exact ⟨_, (hsite.booked hopening).2.1⟩
  obtain ⟨begun, hbooked⟩ := hbooked
  refine ⟨?_, warnings_evaluate hf hi, ?_, fun v hv => ?_, fun failure h => ?_,
    fun site failure h => ?_⟩
  · rw [hafter]
    exact hbooked.warnings
  · rw [hafter]
    exact hbooked.ordered
  · rw [houtcome] at hv
    rw [hafter]
    exact (booked_of_ok hv hopening).steps.symm
  · rw [houtcome] at h
    exact exists_failsAt h
  · obtain ⟨hfails, hsite, hadmits⟩ := h.booked hopening
    rw [houtcome, hafter]
    exact ⟨hfails, hadmits, hsite.steps⟩

/-- A branch that leaves two values is warned of. One that has none is where the call
    fails, with the conditional around it missing on record. -/
theorem bookkeeping_agrees_of_branches :
    ((new .null (.int 1)).evaluate (.list branch)).after.shell.warnings =
        leftovers ((new .null (.int 1)).endings branch) ∧
      ((new .null (.int 1)).evaluate (.list (choosing []))).outcome =
        .error (.evaluation .noResult) ∧
      ((new .null (.int 1)).evaluate (.list (choosing []))).after.shell.steps =
        (stepEvents ((new .null (.int 1)).evaluate
          (.list (choosing []))).after.shell.tracer.events).length + 1 := by
  have hbranch : (Value.list branch).items? = .ok branch := rfl
  have hchoosing : (Value.list (choosing [])).items? = .ok (choosing []) := rfl
  obtain ⟨-, hwarnings, -⟩ := bookkeeping_agrees (e := new .null (.int 1)) rfl hbranch
  obtain ⟨-, -, -, -, -, hfails⟩ := bookkeeping_agrees (e := new .null (.int 1)) rfl hchoosing
  obtain ⟨s, hadvance⟩ : ∃ s, advance (.int 1) 0 3
      ⟨.start (choosing []), [], (new .null (.int 1)).opening (choosing [])⟩ =
    .running ⟨⟨[.morphism .cond], [.null, .sub [], .bool true], none⟩, [], s⟩ := ⟨_, rfl⟩
  have hentered : Config.next (.int 1)
      ⟨⟨[.morphism .cond], [.null, .sub [], .bool true], none⟩, [], s⟩ =
    .running ⟨.start [], [⟨⟨[], [], none⟩, true⟩], s.tick⟩ :=
    next_of_entered rfl (enter_int_eq_ok.2 (by decide))
  have hempty : Config.HaltsAt (.int 1) ⟨.start [], [⟨⟨[], [], none⟩, true⟩], s.tick⟩ (.exit 1)
      (.evaluation .noResult) := .emptied rfl rfl
  have hfailsAt : FailsAt (.int 1) (choosing []) ((new .null (.int 1)).opening (choosing []))
      (.exit 1) (.evaluation .noResult) :=
    .inside (enter_int_eq_ok.2 (by decide)) ((comesTo_of_advance hadvance).tail hentered) hempty
  obtain ⟨houtcome, -, hsteps⟩ := hfails (.exit 1) (.evaluation .noResult) hfailsAt
  rw [show (Site.exit 1).begun = 1 from rfl] at hsteps
  exact ⟨hwarnings, houtcome, hsteps⟩

/-- A derivation that ends with two values of which one has no text is not warned of, and
    the call does not return. -/
theorem unwarned_of_huge :
    ∃ c, (new .null .null).runSteps (square ++ [.literal (.int 1)]) = .running c ∧
      c.current.stack = [.int 1, .huge] ∧
      let call := (new .null .null).evaluate (.list (square ++ [.literal (.int 1)]))
      call.outcome = .error (.fault .tooManyDigits) ∧ call.after.shell.warnings = [] := by
  have henter : enter (new .null .null).limit 0 = .ok () := enter_int_eq_ok.2 (by decide)
  obtain ⟨s, hs, -, hwarnings, hsquare⟩ := runSteps_square
    (s := (new .null .null).opening (square ++ [.literal (.int 1)])) rfl
    [.literal (.int 1)] [] none []
  have hshown : Value.areShowable [.int 1, .huge] = false :=
    Value.areShowable_of_huge_mem (List.mem_cons_of_mem _ List.mem_cons_self)
  obtain ⟨c, hstack, hwarned, hsteps⟩ : ∃ c : Config, c.current.stack = [.int 1, .huge] ∧
      c.session.warnings = s.warnings ∧
      (new .null .null).runSteps (square ++ [.literal (.int 1)]) = .running c := by
    refine ⟨⟨⟨[], [.int 1, .huge], some .multiply⟩, [],
      s.tick.record ⟨s.tick.steps, .pushed (.int 1) 0⟩⟩, rfl, rfl, ?_⟩
    rw [runSteps_of_enter henter, Frame.start, hsquare,
      runSteps_of_pushes (.literal (.int 1)) (Tracer.admits_of_off hs _)]
    exact runSteps_of_atEnd _ ⟨rfl, rfl⟩
  have hbottom : c.current.stack.getLast? = some .huge := by
    rw [hstack]
    rfl
  obtain ⟨houtcome, -, hafter, -⟩ := evaluate_of_leftovers (e := new .null .null) rfl
    (rfl : (Value.list (square ++ [.literal (.int 1)])).items? = .ok _) hsteps hbottom
    (by simp only [hstack, List.length_cons, List.length_nil]; decide)
  rw [← hstack] at hshown
  rw [if_neg (Bool.eq_false_iff.1 hshown)] at houtcome
  rw [Config.leftovers, if_neg (Bool.eq_false_iff.1 hshown), List.append_nil] at hafter
  exact ⟨c, hsteps, hstack, houtcome, hafter.trans (hwarned.trans hwarnings)⟩

end Evaluator

end Heptad.Stack
