import Mathlib.Data.List.Range
import Heptad.Proofs.Stack.Bookkeeping

/-!
# The numbers of events

The steps of a run are numbered in the order in which they are begun, and an event is
recorded with the number of the latest one. That is the step the event is about, but
for a conditional whose branch is run: this is put on record only when the branch has
ended, and with the number of the last step in it.

* `Numbering`, `numbering`: beside a run, which of its events is about which step;
* `Describes`: what such an event says of the step, and which number it has;
* `Numbered.follow`, `numbered_run`: a transition keeps this up, and so does a run;
* `Evaluator.numbers_of_events`: hence the numbers of the events of a call that returns;
* `Evaluator.conditional_repeats_number`: they are not those of the steps.
-/

namespace Heptad.Stack

/-! ## Numberings -/

/-- Beside a run, the steps it has begun and what is on record of them. -/
structure Numbering where
  /-- The steps in the order in which they were begun. -/
  begun : List Value
  /-- The numbers of the conditionals that wait for their branches, the innermost first. -/
  waiting : List Nat
  /-- The events about steps in the order of the record, each with the number of its step. -/
  described : List (Nat × Event)

namespace Numbering

/-- The numbering of a run that has not begun any step. -/
def empty : Numbering := ⟨[], [], []⟩

/-- A step is what the latest event of a session is about. -/
def describe (a : Numbering) (number : Nat) (s : Session Event) : Numbering :=
  { a with described := a.described ++ (s.tracer.events.getLast?.map (number, ·)).toList }

/-- The numbering after a transition. -/
def follow (c d : Config) (a : Numbering) : Numbering :=
  match c.current.rest, a.waiting with
  | [], [] => a
  -- a branch has ended, and the conditional that waits for it is put on record
  | [], number :: waiting => describe { a with waiting } number d.session
  | step :: _, waiting =>
    let number := a.begun.length + 1
    let a := { a with begun := a.begun ++ [step] }
    if c.depth < d.depth then { a with waiting := number :: waiting }
    else a.describe number d.session

end Numbering

/-- The numbering at the end of a run. -/
def numbering (limit : Value) (c : Config) (a : Numbering) : Numbering :=
  match _h : c.next limit with
  | .halted _ _ => a
  | .running d => numbering limit d (a.follow c d)
termination_by c.weight
decreasing_by exact Config.next_weight_lt _h

variable {limit : Value} {c d : Config} {a : Numbering}

theorem numbering_of_halted {outcome : Except Failure Value} {session : Session Event}
    (h : c.next limit = .halted outcome session) (a : Numbering) : numbering limit c a = a := by
  rw [numbering]
  split <;> simp_all

theorem numbering_of_running (h : c.next limit = .running d) (a : Numbering) :
    numbering limit c a = numbering limit d (a.follow c d) := by
  rw [numbering]
  split <;> simp_all

/-! ## Events and steps -/

/-- What an event says was done is what is done for a step. -/
inductive Event.IsAbout : Event → Value → Prop
  | pushed {step v : Value} {action : Nat → Action} (n depth : Nat) : Pushes step v action →
      IsAbout ⟨n, action depth⟩ step
  | applied (n : Nat) (p : Primitive) (args : List Value) (result : Value) (implicit : Bool)
      (depth : Nat) : IsAbout ⟨n, .applied p args result implicit depth⟩ (.morphism .apply)
  | decided (n : Nat) (condition nested : Bool) (result : Value) (depth : Nat) :
      IsAbout ⟨n, .decided condition nested result depth⟩ (.morphism .cond)

/-- Whether an event is about a conditional whose branch was run for its value. -/
def Event.isNested (e : Event) : Bool :=
  match e.action with
  | .decided _ nested _ _ => nested
  | _ => false

/-- No event about a step is a warning. -/
theorem Event.IsAbout.isWarning {e : Event} {step : Value} (h : e.IsAbout step) :
    e.isWarning = false := by
  cases h with
  | pushed n depth hp => exact isWarning_of_pushes hp n depth
  | applied | decided => rfl

theorem isNested_of_pushes {step v : Value} {action : Nat → Action} (h : Pushes step v action)
    (n depth : Nat) : Event.isNested ⟨n, action depth⟩ = false := by
  cases h with
  | literal | morphism | sub => rfl

/-- An event is about the step that was begun as the `k`-th one. Its own number is greater
    by the steps that were begun later and put on record before, and so it is that of the
    step unless a branch was run for it. -/
structure Describes (begun : List Value) (before : List (Nat × Event)) (k : Nat) (e : Event) :
    Prop where
  about : ∃ step, begun[k - 1]? = some step ∧ e.IsAbout step
  number : e.step = k + before.countP fun x => k < x.1
  own : e.step = k ↔ e.isNested = false

/-- Each event describes the step whose number goes with it. -/
def Faithful (begun : List Value) (described : List (Nat × Event)) : Prop :=
  ∀ before k e after, described = before ++ (k, e) :: after → Describes begun before k e

theorem getElem?_append_of_some {α : Type} {xs : List α} {i : Nat} {x : α} (h : xs[i]? = some x)
    (ys : List α) : (xs ++ ys)[i]? = some x := by
  rw [List.getElem?_append_left (List.getElem?_eq_some_iff.1 h).1, h]

/-- More steps may be begun. -/
theorem Describes.append {begun : List Value} {before : List (Nat × Event)} {k : Nat} {e : Event}
    (h : Describes begun before k e) (more : List Value) :
    Describes (begun ++ more) before k e where
  about := by
    obtain ⟨step, hstep, habout⟩ := h.about
    exact ⟨step, getElem?_append_of_some hstep more, habout⟩
  number := h.number
  own := h.own

theorem append_concat_cases {α : Type} {before after xs : List α} {x y : α}
    (h : xs ++ [y] = before ++ x :: after) :
    (xs = before ∧ y = x) ∨ ∃ after', xs = before ++ x :: after' := by
  rcases List.eq_nil_or_concat after with rfl | ⟨after', z, rfl⟩
  · obtain ⟨hxs, hxy⟩ := List.append_inj' h rfl
    exact .inl ⟨hxs, List.head_eq_of_cons_eq hxy⟩
  · rw [List.concat_eq_append, ← List.cons_append, ← List.append_assoc] at h
    exact .inr ⟨after', (List.append_inj' h rfl).1⟩

/-- Events are faithful with one more of them, if this describes its step. -/
theorem Faithful.concat {begun more : List Value} {described : List (Nat × Event)} {k : Nat}
    {e : Event} (h : Faithful begun described) (he : Describes (begun ++ more) described k e) :
    Faithful (begun ++ more) (described ++ [(k, e)]) := by
  intro before j f after heq
  rcases append_concat_cases heq with ⟨rfl, hlast⟩ | ⟨after', hbefore⟩
  · cases hlast
    exact he
  · exact (h before j f after' hbefore).append more

/-- What a numbering says is true of a configuration. -/
structure Numbered (c : Config) (a : Numbering) : Prop where
  steps : a.begun.length = c.session.steps
  /-- All events but the warnings are about steps. -/
  events : a.described.map Prod.snd = stepEvents c.session.tracer.events
  /-- Each step begun is on record, or it is a conditional that waits. -/
  numbers : (a.described.map Prod.fst ++ a.waiting).Perm (List.range' 1 a.begun.length)
  conditionals : ∀ k ∈ a.waiting, a.begun[k - 1]? = some (.morphism .cond)
  depth : a.waiting.length = c.depth
  /-- Of the conditionals that wait the innermost was begun last. -/
  inner : a.waiting.Pairwise (· > ·)
  /-- Unless the derivation was just entered, a step was begun after the conditionals that
      wait. -/
  inside : c.current.stack ≠ [] → ∀ k ∈ a.waiting, k < a.begun.length
  faithful : Faithful a.begun a.described

/-! ## Transitions -/

namespace Numbering

variable {frame : Frame} {action : Action}

theorem describe_record (a : Numbering) (number : Nat) (s : Session Event) (e : Event) :
    a.describe number (s.record e) = { a with described := a.described ++ [(number, e)] } := by
  have hlast : (s.record e).tracer.events.getLast? = some e := List.getLast?_concat
  rw [describe, hlast]
  rfl

theorem follow_of_executed {step : Value} {rest : List Value} (hr : c.current.rest = step :: rest)
    (a : Numbering) :
    a.follow c (c.ticked.moved frame action) = ⟨a.begun ++ [step], a.waiting,
      a.described ++ [(a.begun.length + 1, ⟨c.session.steps + 1, action⟩)]⟩ := by
  rw [follow, hr]
  exact (if_neg (Nat.lt_irrefl c.depth)).trans (describe_record _ _ _ _)

theorem follow_of_entered {step : Value} {rest : List Value} {frame : Frame} {p : Pending}
    (hr : c.current.rest = step :: rest) (a : Numbering) :
    a.follow c ⟨frame, p :: c.callers, c.ticked.session⟩ =
      ⟨a.begun ++ [step], (a.begun.length + 1) :: a.waiting, a.described⟩ := by
  rw [follow, hr]
  exact if_pos (Nat.lt_succ_self _)

theorem follow_of_returned {k : Nat} {waiting : List Nat} {callers : List Pending}
    {s : Session Event} (hr : c.current.rest = []) (hw : a.waiting = k :: waiting) :
    a.follow c (Config.moved ⟨c.current, callers, s⟩ frame action) =
      ⟨a.begun, waiting, a.described ++ [(k, ⟨s.steps, action⟩)]⟩ := by
  rw [follow, hr, hw]
  exact describe_record _ k s ⟨s.steps, action⟩

end Numbering

/-- The end of a derivation is not the record of a step. -/
theorem Config.stepEvents_of_ending {s : Session Event} (h : c.ending = .ok s) :
    stepEvents s.tracer.events = stepEvents c.session.tracer.events := by
  rcases c.ending_cases with ⟨-, he⟩ | ⟨-, -, he⟩ | ⟨-, -, he⟩ <;> cases h.symm.trans he
  · rfl
  · exact stepEvents_concat_of_warning rfl

/-- Of the numbers up to `n`, those greater than `k`. -/
theorem countP_range' {k n : Nat} (h : k ≤ n) :
    (List.range' 1 n).countP (fun i => k < i) = n - k := by
  obtain ⟨m, rfl⟩ := Nat.exists_eq_add_of_le h
  have hfirst : (List.range' 1 k).countP (fun i => k < i) = 0 := by
    rw [List.countP_eq_zero]
    intro i hi
    rw [List.mem_range'_1] at hi
    simp only [decide_eq_true_eq]
    omega
  have hsecond : (List.range' (1 + k) m).countP (fun i => k < i) = m := by
    rw [List.countP_eq_length.2, List.length_range']
    intro i hi
    rw [List.mem_range'_1] at hi
    simp only [decide_eq_true_eq]
    omega
  rw [← List.range'_append_1, List.countP_append, hfirst, hsecond]
  omega

namespace Numbered

/-- Before its first step nothing is to be said of a run. -/
theorem empty {c : Config} (hsteps : c.session.steps = 0) (hevents : c.session.tracer.events = [])
    (hdepth : c.depth = 0) : Numbered c .empty where
  steps := hsteps.symm
  events := by
    rw [hevents]
    rfl
  numbers := .refl _
  conditionals := nofun
  depth := hdepth.symm
  inner := .nil
  inside _ := nofun
  faithful _ _ _ _ h := nomatch List.append_ne_nil_of_right_ne_nil _ (List.cons_ne_nil _ _) h.symm

/-- The numbers in use are those of the steps begun. -/
theorem le_of_mem (h : Numbered c a) {k : Nat}
    (hk : k ∈ a.described.map Prod.fst ++ a.waiting) : k ≤ a.begun.length := by
  have := List.mem_range'_1.1 (h.numbers.mem_iff.1 hk)
  omega

theorem le_of_waiting (h : Numbered c a) {k : Nat} (hk : k ∈ a.waiting) : k ≤ a.begun.length :=
  h.le_of_mem (List.mem_append_right _ hk)

theorem le_of_described (h : Numbered c a) {x : Nat × Event} (hx : x ∈ a.described) :
    x.1 ≤ a.begun.length :=
  h.le_of_mem (List.mem_append_left _ (List.mem_map_of_mem hx))

/-- One more number is in use when a step is begun. -/
theorem range'_concat (step : Value) :
    List.range' 1 (a.begun ++ [step]).length =
      List.range' 1 a.begun.length ++ [a.begun.length + 1] := by
  rw [List.length_append, List.length_singleton, List.range'_concat, Nat.one_mul, Nat.add_comm 1]

/-- A step that is executed at once is put on record as the latest one. -/
theorem executed {step : Value} {rest : List Value} {frame : Frame} {action : Action}
    (h : Numbered c a) (hr : c.current.rest = step :: rest)
    (habout : Event.IsAbout ⟨c.session.steps + 1, action⟩ step)
    (hnested : Event.isNested ⟨c.session.steps + 1, action⟩ = false) :
    Numbered (c.ticked.moved frame action) (a.follow c (c.ticked.moved frame action)) := by
  rw [Numbering.follow_of_executed hr]
  have hlength : (a.begun ++ [step]).length = a.begun.length + 1 := by
    rw [List.length_append, List.length_singleton]
  constructor
  case steps => exact hlength.trans (congrArg (· + 1) h.steps)
  case events =>
    refine Eq.trans ?_ (stepEvents_concat_of_step habout.isWarning).symm
    rw [List.map_append, h.events]
    rfl
  case numbers =>
    rw [range'_concat, List.map_append, List.append_assoc]
    refine (List.perm_append_comm.append_left _).trans ?_
    rw [← List.append_assoc]
    exact h.numbers.append_right _
  case conditionals => exact fun k hk => getElem?_append_of_some (h.conditionals k hk) _
  case depth => exact h.depth
  case inner => exact h.inner
  case inside =>
    intro _ k hk
    rw [hlength]
    exact Nat.lt_succ_of_le (h.le_of_waiting hk)
  case faithful =>
    refine h.faithful.concat ⟨⟨step, ?_, habout⟩, ?_, ?_⟩
    · rw [Nat.add_sub_cancel, List.getElem?_concat_length]
    · -- No step has been begun later.
      have hnone : a.described.countP (fun x => a.begun.length + 1 < x.1) = 0 := by
        rw [List.countP_eq_zero]
        intro x hx
        have := h.le_of_described hx
        simp only [decide_eq_true_eq]
        omega
      show c.session.steps + 1 = _
      rw [hnone, Nat.add_zero, h.steps]
    · rw [h.steps]
      exact iff_of_true rfl hnested

/-- A conditional waits for the branch that is entered. -/
theorem entered {rest steps : List Value} {p : Pending} (h : Numbered c a)
    (hr : c.current.rest = .morphism .cond :: rest) :
    Numbered ⟨.start steps, p :: c.callers, c.ticked.session⟩
      (a.follow c ⟨.start steps, p :: c.callers, c.ticked.session⟩) := by
  rw [Numbering.follow_of_entered hr]
  constructor
  case steps =>
    rw [List.length_append, List.length_singleton, h.steps]
    rfl
  case events => exact h.events
  case numbers =>
    rw [range'_concat]
    exact List.perm_middle.trans ((h.numbers.cons _).trans (List.perm_append_singleton _ _).symm)
  case conditionals =>
    intro k hk
    rcases List.mem_cons.1 hk with rfl | hk
    · rw [Nat.add_sub_cancel, List.getElem?_concat_length]
    · exact getElem?_append_of_some (h.conditionals k hk) _
  case depth => exact congrArg (· + 1) h.depth
  case inner =>
    refine List.pairwise_cons.2 ⟨fun k hk => ?_, h.inner⟩
    exact Nat.lt_succ_of_le (h.le_of_waiting hk)
  case inside => exact fun hne => absurd rfl hne
  case faithful => exact fun before k e after heq => (h.faithful before k e after heq).append _

/-- The steps behind a conditional whose branch has ended are all on record. -/
theorem countP_described (h : Numbered c a) {k : Nat} {waiting : List Nat}
    (hw : a.waiting = k :: waiting) :
    a.described.countP (fun x => k < x.1) = a.begun.length - k := by
  have hinner := h.inner
  rw [hw, List.pairwise_cons] at hinner
  have hwaiting : a.waiting.countP (fun i => k < i) = 0 := by
    rw [hw, List.countP_eq_zero]
    intro j hj
    rcases List.mem_cons.1 hj with rfl | hj
    · simp only [decide_eq_true_eq]
      omega
    · have := hinner.1 j hj
      simp only [decide_eq_true_eq]
      omega
  have hcount := h.numbers.countP_eq (fun i => k < i)
  rw [List.countP_append, hwaiting, List.countP_map, Nat.add_zero,
    countP_range' (h.le_of_waiting (hw ▸ List.mem_cons_self))] at hcount
  exact hcount

/-- A conditional whose branch has come to its end is put on record with the number of the
    latest step. -/
theorem returned {p : Pending} {callers : List Pending} {frame : Frame} {v : Value}
    {s : Session Event} (h : Numbered c a) (hr : c.current.rest = [])
    (hstack : c.current.stack ≠ []) (hcallers : c.callers = p :: callers)
    (he : c.ending = .ok s) :
    let d := Config.moved ⟨c.current, callers, s⟩ frame
      (.decided p.condition true v callers.length)
    Numbered d (a.follow c d) := by
  intro d
  have hdepth : a.waiting.length = callers.length + 1 :=
    h.depth.trans (congrArg List.length hcallers)
  obtain ⟨k, waiting, hw⟩ := List.exists_cons_of_length_eq_add_one hdepth
  have hmem : k ∈ a.waiting := hw ▸ List.mem_cons_self
  have hmem' {j : Nat} (hj : j ∈ waiting) : j ∈ a.waiting := hw ▸ List.mem_cons_of_mem k hj
  have habout : Event.IsAbout ⟨s.steps, .decided p.condition true v callers.length⟩
      (.morphism .cond) := .decided ..
  have hfollow : a.follow c d = _ := Numbering.follow_of_returned hr hw
  rw [hfollow]
  constructor
  case steps => exact h.steps.trans (c.steps_of_ending he).symm
  case events =>
    refine Eq.trans ?_ (stepEvents_concat_of_step habout.isWarning).symm
    rw [List.map_append, h.events, c.stepEvents_of_ending he]
    rfl
  case numbers =>
    have hnumbers := h.numbers
    rw [hw] at hnumbers
    rw [List.map_append, List.append_assoc]
    exact hnumbers
  case conditionals => exact fun j hj => h.conditionals j (hmem' hj)
  case depth =>
    rw [hw] at hdepth
    exact Nat.succ.inj hdepth
  case inner =>
    have hinner := h.inner
    rw [hw] at hinner
    exact hinner.of_cons
  case inside => exact fun _ j hj => h.inside hstack j (hmem' hj)
  case faithful =>
    have hbehind := h.inside hstack k hmem
    have hsteps : s.steps = a.begun.length := (c.steps_of_ending he).trans h.steps.symm
    rw [← List.append_nil a.begun]
    refine h.faithful.concat ?_
    rw [List.append_nil]
    refine ⟨⟨_, h.conditionals k hmem, habout⟩, ?_, ?_⟩
    · rw [h.countP_described hw]
      show s.steps = _
      omega
    · show s.steps = k ↔ true = false
      exact iff_of_false (by omega) nofun

/-- A derivation that moves on keeps its numbering true. -/
theorem moved {frame : Frame} {action : Action} (hm : Config.Moves c d frame action)
    (h : Numbered c a) : Numbered (d.moved frame action) (a.follow c (d.moved frame action)) := by
  cases hm with
  | pushed hr hp => exact h.executed hr (.pushed _ _ hp) (isNested_of_pushes hp _ _)
  | applied hr => exact h.executed hr (.applied ..) rfl
  | decided hr => exact h.executed hr (.decided ..) rfl
  | returned hr hv hcallers he =>
    exact h.returned hr (List.ne_nil_of_mem (List.mem_of_getLast? hv)) hcallers he

/-- A transition keeps the numbering true. -/
theorem follow (hn : c.next limit = .running d) (h : Numbered c a) : Numbered d (a.follow c d) := by
  generalize hd : Next.running d = next at hn
  cases Config.next_eq_iff.1 hn with
  | moved hm =>
    cases hd
    exact h.moved hm
  | entered hr =>
    cases hd
    exact h.entered hr
  | undescribed | failed | finished | unwarned | emptied => cases hd

end Numbered

/-! ## Runs -/

/-- A transition begins the step it executes. -/
theorem begun_follow (c d : Config) (a : Numbering) (o : Origins) :
    (a.follow c d).begun = a.begun ++ (c.executed o).map Prod.snd := by
  rw [Numbering.follow]
  cases hr : c.current.rest with
  | nil =>
    rw [executed_of_nil hr, List.map_nil, List.append_nil]
    cases a.waiting <;> rfl
  | cons step rest =>
    rw [executed_of_cons hr]
    dsimp only
    split <;> rfl

/-- A run that returns begins the steps it executes. -/
theorem begun_numbering {v : Value} (hv : (run limit c).1 = .ok v) (a : Numbering) (o : Origins) :
    (numbering limit c a).begun = a.begun ++ (executions limit c o).map Prod.snd := by
  induction c using run.induct limit generalizing a o with
  | case1 c outcome session hn =>
    rw [run_of_halted hn] at hv
    cases hv
    rw [numbering_of_halted hn, executions_of_halted hn]
    cases Config.next_eq_iff.1 hn with
    | finished hr =>
      rw [executed_of_nil hr]
      exact (List.append_nil _).symm
  | case2 c d hn ih =>
    rw [run_of_running hn] at hv
    rw [numbering_of_running hn, executions_of_running hn, ih hv, begun_follow, List.map_append,
      List.append_assoc]

/-- The numbering at the end of a run is true of it. -/
theorem numbered_run {v : Value} (hv : (run limit c).1 = .ok v) (h : Numbered c a) :
    ∃ d, d.depth = 0 ∧ d.ending = .ok (run limit c).2 ∧ Numbered d (numbering limit c a) := by
  induction c using run.induct limit generalizing a with
  | case1 c outcome session hn =>
    rw [run_of_halted hn] at hv ⊢
    cases hv
    rw [numbering_of_halted hn]
    cases Config.next_eq_iff.1 hn with
    | finished hr hbottom hcallers he => exact ⟨c, congrArg List.length hcallers, he, h⟩
  | case2 c d hn ih =>
    rw [run_of_running hn] at hv ⊢
    rw [numbering_of_running hn]
    exact ih hv (h.follow hn)

/-! ## Calls of the evaluator -/

namespace Evaluator

/-- The events of an admitted call that are about steps, in the order of the record and
    each with the number of its step. -/
def described (e : Evaluator) (steps : List Value) : List (Nat × Event) :=
  (numbering e.limit ⟨.start steps, [], e.opening steps⟩ .empty).described

variable {e : Evaluator} {derivation : Value} {steps : List Value}

/-- The events of a call that is made while the guard is free and returns. The events
    about steps are all but the warnings, and there is one for each step that was begun. An
    event says what was done for its step, and its number is greater than that of the step by
    the steps that were begun later and put on record before. So it has the number of its step,
    unless a branch was run for it. -/
theorem numbers_of_events (hf : e.shell.inFlight = false) (hi : derivation.items? = .ok steps)
    {v : Value} (hv : (e.evaluate derivation).outcome = .ok v) :
    let shell := (e.evaluate derivation).after.shell
    (e.described steps).map Prod.snd = stepEvents shell.tracer.events ∧
    ((e.described steps).map Prod.fst).Perm (List.range' 1 shell.steps) ∧
    Faithful ((e.executions steps).map Prod.snd) (e.described steps) := by
  obtain ⟨houtcome, hafter⟩ := evaluate_of_steps hf hi
  rw [houtcome] at hv
  rw [hafter, executions]
  rw [runDerivation] at hv ⊢
  cases he : enter e.limit 0 with
  | error failure =>
    rw [he] at hv
    cases hv
  | ok _ =>
    rw [he] at hv
    dsimp only at hv ⊢
    obtain ⟨d, hdepth, hending, hd⟩ := numbered_run hv (.empty rfl rfl rfl)
    have hbegun := begun_numbering hv .empty .start
    rw [Numbering.empty, List.nil_append] at hbegun
    have hwaiting := List.length_eq_zero_iff.1 (hd.depth.trans hdepth)
    refine ⟨?_, ?_, ?_⟩
    · show _ = stepEvents (run _ _).2.tracer.events
      rw [d.stepEvents_of_ending hending]
      exact hd.events
    · show List.Perm _ (List.range' 1 (run _ _).2.steps)
      rw [d.steps_of_ending hending, ← hd.steps]
      have hnumbers := hd.numbers
      rw [hwaiting, List.append_nil] at hnumbers
      exact hnumbers
    · rw [← hbegun]
      exact hd.faithful

/-- A conditional that runs a branch of one step for its value. -/
theorem evaluate_choosing (v : Value) :
    let call := (new .null .null).evaluate (.list (choosing [.literal v]))
    call.outcome = .ok v ∧ call.after.shell.steps = 5 ∧
      (stepEvents call.after.shell.tracer.events).map Event.step = [1, 2, 3, 5, 5] := by
  obtain ⟨s, hoperands, hs, hevents, hdebug⟩ : ∃ s, advance (.int 100) 0 3
        ⟨.start (choosing [.literal v]), [], (new .null .null).opening (choosing [.literal v])⟩ =
      .running ⟨⟨[.morphism .cond], [.null, .sub [.literal v], .bool true], none⟩, [], s⟩ ∧
    s.steps = 3 ∧ (stepEvents s.tracer.events).map Event.step = [1, 2, 3] ∧
    s.tracer.debug = false := ⟨_, rfl, rfl, rfl, rfl⟩
  have hentered : Config.next (.int 100)
      ⟨⟨[.morphism .cond], [.null, .sub [.literal v], .bool true], none⟩, [], s⟩ =
    .running ⟨.start [.literal v], [⟨⟨[], [], none⟩, true⟩], s.tick⟩ :=
    next_of_entered rfl (enter_int_eq_ok.2 (by decide))
  obtain ⟨t, hbranch, ht, hevents'⟩ : ∃ t, advance (.int 100) 0 2
        ⟨.start [.literal v], [⟨⟨[], [], none⟩, true⟩], s.tick⟩ =
      .running ⟨⟨[], [v], none⟩, [], t⟩ ∧ t.steps = s.steps + 2 ∧
    t.tracer.events = s.tracer.events ++ [⟨s.steps + 2, .pushed v 1⟩] ++
      [⟨s.steps + 2, .decided true true v 0⟩] := by
    obtain ⟨⟨source, debug, events⟩, steps, warnings, lines⟩ := s
    obtain rfl : debug = false := hdebug
    exact ⟨_, rfl, rfl, rfl⟩
  have hcome := ((comesTo_of_advance hoperands).tail hentered).trans (comesTo_of_advance hbranch)
  have henter : enter (new .null .null).limit 0 = .ok () := enter_int_eq_ok.2 (by decide)
  have hrun : runDerivation (new .null .null).limit (choosing [.literal v])
      ((new .null .null).opening (choosing [.literal v])) = (.ok v, t) := by
    rw [runDerivation, henter]
    exact (run_of_comesTo hcome).trans (run_of_halted rfl)
  have hi : (Value.list (choosing [.literal v])).items? = .ok (choosing [.literal v]) := rfl
  obtain ⟨houtcome, hafter⟩ := evaluate_of_steps (e := new .null .null) rfl hi
  rw [hrun] at houtcome hafter
  refine ⟨houtcome, ?_, ?_⟩
  · rw [hafter]
    exact ht.trans (congrArg (· + 2) hs)
  rw [hafter]
  show (stepEvents t.tracer.events).map Event.step = _
  rw [hevents', stepEvents_concat_of_step rfl, stepEvents_concat_of_step rfl, List.map_append,
    List.map_append, hevents, hs]
  rfl

/-- All five steps are on record, the two of them as well that have one number. -/
theorem numbers_of_events_of_branch :
    (((new .null .null).described (choosing [.literal (.int 5)])).map Prod.fst).Perm
      [1, 2, 3, 4, 5] := by
  obtain ⟨houtcome, hsteps, -⟩ := evaluate_choosing (.int 5)
  have hi : (Value.list (choosing [.literal (.int 5)])).items? =
      .ok (choosing [.literal (.int 5)]) := rfl
  have hnumbers := (numbers_of_events (e := new .null .null) rfl hi houtcome).2.1
  rw [hsteps] at hnumbers
  exact hnumbers

/-- The numbers of the events are not those of the steps: the conditional that was begun
    as the fourth step has the number of the fifth one, and no event has its own. -/
theorem conditional_repeats_number :
    let call := (new .null .null).evaluate (.list (choosing [.literal (.int 5)]))
    call.outcome = .ok (.int 5) ∧ call.after.shell.steps = 5 ∧
      (stepEvents call.after.shell.tracer.events).map Event.step = [1, 2, 3, 5, 5] ∧
      ∀ e ∈ stepEvents call.after.shell.tracer.events, e.step ≠ 4 := by
  obtain ⟨houtcome, hsteps, hnumbers⟩ := evaluate_choosing (.int 5)
  refine ⟨houtcome, hsteps, hnumbers, fun e he heq => ?_⟩
  have hmem := List.mem_map_of_mem (f := Event.step) he
  rw [hnumbers, heq] at hmem
  exact absurd hmem (by decide)

end Evaluator

end Heptad.Stack
