import Heptad.Proofs.Stack.Frame

/-!
# The loop of a derivation

A derivation is run alike by a call and as the branch of a conditional: its depth is
checked, its steps are gone through in a loop, and what they leave at the bottom of
the stack is its value.

* `loop`, `Next.result`: the steps gone through, and what they come to;
* `runSteps_of_branch`: a conditional that chooses a sub-derivation ends with its failure or
  goes on with its value;
* `Evaluator.evaluate_of_loop`: and a call of the evaluator ends with either;
* `exists_loop_append`: a loop with more steps goes on from where it would have ended;
* `current_eq_of_loop`: where it ends depends neither on what waits for it nor on the
  session.
-/

namespace Heptad.Stack

/-- The loop over the steps of a derivation that `outer` are waiting for. -/
def loop (limit : Value) (outer : List Pending) (steps : List Value) (s : Session Event) : Next :=
  match enter limit outer.length with
  | .error failure => .halted (.error failure) s
  | .ok () => runSteps limit outer.length ⟨.start steps, outer, s⟩

/-- What a derivation results in whose loop has come to this. -/
def Next.result : Next → Except Failure Value × Session Event
  | .halted outcome session => (outcome, session)
  | .running c =>
    match c.current.stack.getLast? with
    | none => (.error (.evaluation .noResult), c.session)
    | some v =>
      match c.ending with
      | .error failure => (.error failure, c.session)
      | .ok session => (.ok v, session)

variable {limit : Value} {outer : List Pending} {steps : List Value} {s : Session Event}
  {c : Config}

theorem loop_of_enter (h : enter limit outer.length = .ok ()) (steps : List Value)
    (s : Session Event) :
    loop limit outer steps s = runSteps limit outer.length ⟨.start steps, outer, s⟩ := by
  rw [loop, h]

/-- Before their end, the steps come to where the next transition leads them. -/
theorem runSteps_eq_next {depth : Nat} (he : ¬ c.AtEnd depth) :
    runSteps limit depth c = (c.next limit).runSteps limit depth := by
  cases hn : c.next limit with
  | halted outcome t => exact runSteps_of_halted he hn
  | running d => exact runSteps_of_running he hn

/-- A loop that comes to its end was entered, and is back at the derivations around it. -/
theorem exists_of_loop (h : loop limit outer steps s = .running c) :
    enter limit outer.length = .ok () ∧
      runSteps limit outer.length ⟨.start steps, outer, s⟩ = .running c ∧
      c.current.rest = [] ∧ c.callers = outer := by
  rw [loop] at h
  cases henter : enter limit outer.length with
  | error failure =>
    rw [henter] at h
    cases h
  | ok _ =>
    rw [henter] at h
    obtain ⟨hrest, hcallers, -⟩ :=
      runSteps_onto h (.start []) rfl (admitAlike_of_debug (Eq.refl s.tracer.debug) _)
    exact ⟨rfl, h, hrest, hcallers⟩

/-- A loop with more steps goes on from where the one without them ends, wherever it is as
    deep and in any session that is debugged alike. -/
theorem exists_loop_append (h : loop limit outer steps s = .running c) :
    ∃ log : Log, c.session = log.addTo s ∧
      ∀ (outer' : List Pending) (more : List Value) (t : Session Event),
        outer'.length = outer.length → t.tracer.debug = s.tracer.debug →
        loop limit outer' (steps ++ more) t =
          runSteps limit outer'.length
            ⟨⟨more, c.current.stack, c.current.last⟩, outer', log.addTo t⟩ := by
  obtain ⟨henter, hrun, -, -⟩ := exists_of_loop h
  obtain ⟨hrest, -, log, hs, -⟩ :=
    runSteps_onto hrun (.start []) rfl (admitAlike_of_debug (Eq.refl s.tracer.debug) _)
  refine ⟨log, hs, fun outer' more t hl hdebug => ?_⟩
  obtain ⟨-, -, log', hs', honto⟩ :=
    runSteps_onto hrun (.start more) hl (admitAlike_of_debug hdebug _)
  obtain rfl : log = log' := Log.addTo_injective s (hs.symm.trans hs')
  have hmid : c.current.onto (.start more) = ⟨more, c.current.stack, c.current.last⟩ := by
    rw [Frame.onto, hrest, Frame.start, List.append_nil, Option.or_none, List.nil_append]
  rw [hmid] at honto
  rw [← hl] at henter
  exact (loop_of_enter henter _ _).trans honto

/-- A loop comes to the same end wherever it is as deep, in any session that is debugged
    alike. -/
theorem exists_loop_of_debug (h : loop limit outer steps s = .running c) :
    ∃ log : Log, c.session = log.addTo s ∧ ∀ (outer' : List Pending) (t : Session Event),
      outer'.length = outer.length → t.tracer.debug = s.tracer.debug →
      loop limit outer' steps t = .running ⟨c.current, outer', log.addTo t⟩ := by
  obtain ⟨-, -, hrest, -⟩ := exists_of_loop h
  obtain ⟨log, hlog, happend⟩ := exists_loop_append h
  refine ⟨log, hlog, fun outer' t hl hdebug => ?_⟩
  have hloop := happend outer' [] t hl hdebug
  rw [List.append_nil, ← hrest] at hloop
  exact hloop.trans (runSteps_of_atEnd limit ⟨hrest, rfl⟩)

/-- Steps that come to their end with more steps behind them do so without these. -/
theorem exists_running_of_append
    {more stack : List Value} {last : Option Primitive}
    (h : runSteps limit outer.length ⟨⟨steps ++ more, stack, last⟩, outer, s⟩ = .running c) :
    ∃ c₁, runSteps limit outer.length ⟨⟨steps, stack, last⟩, outer, s⟩ = .running c₁ ∧
      runSteps limit outer.length ⟨⟨steps ++ more, stack, last⟩, outer, s⟩ =
        runSteps limit outer.length
          ⟨⟨more, c₁.current.stack, c₁.current.last⟩, outer, c₁.session⟩ := by
  have honto : Frame.onto ⟨steps, stack, last⟩ (.start more) = ⟨steps ++ more, stack, last⟩ := by
    rw [Frame.onto, Frame.start, List.append_nil, Option.or_none]
  cases hr : runSteps limit outer.length ⟨⟨steps, stack, last⟩, outer, s⟩ with
  | halted outcome t =>
    obtain ⟨log, -, hhalted⟩ := runSteps_before hr more (Eq.refl s.steps)
      (Eq.refl s.tracer.source) (admitAlike_of_debug (Eq.refl s.tracer.debug) _)
    rw [honto, h] at hhalted
    cases hhalted
  | running c₁ =>
    obtain ⟨hrest, -, log, hlog, hrun⟩ :=
      runSteps_onto hr (.start more) rfl (admitAlike_of_debug (Eq.refl s.tracer.debug) _)
    rw [honto, ← hlog, Frame.onto, hrest, Frame.start, List.nil_append, List.append_nil,
      Option.or_none] at hrun
    exact ⟨c₁, rfl, hrun⟩

/-! ## Debugging -/

/-- Whether all that a session has on record can be described, where it has to be. -/
def Described (s : Session Event) : Prop := ∀ e ∈ s.tracer.events, s.tracer.admits e = true

namespace Described

theorem record (h : Described s) {e : Event} (he : s.tracer.admits e = true) :
    Described (s.record e) := fun e' hmem => by
  rcases List.mem_append.1 hmem with hmem | hmem
  · exact h e' hmem
  · rw [List.mem_singleton.1 hmem]
    exact he

theorem ending (h : Described c.session) {t : Session Event} (he : c.ending = .ok t) :
    Described t := by
  rcases c.ending_cases with ⟨-, he'⟩ | ⟨-, -, he'⟩ | ⟨-, -, he'⟩ <;> cases he.symm.trans he'
  · exact h
  · exact record (s := { c.session with warnings := _ }) h (Tracer.admits_of_showable rfl)

/-- What moves a derivation on has put on record before at most a warning. -/
theorem moves {d : Config} {frame : Frame} {action : Action} (h : Described c.session)
    (hm : Config.Moves c d frame action) : Described d.session := by
  cases hm with
  | pushed | applied | decided => exact h
  | returned hrest hv hc hending => exact h.ending hending

/-- Nothing that cannot be described is put on record by a transition, unless the run ends
    for it. -/
theorem transition {n : Next} (h : Described c.session) (ht : Config.Transition limit c n) :
    Described n.session ∨ ∃ t e, Described t ∧
      n = .halted (.error (.fault .tooManyDigits)) (t.record e) := by
  cases ht with
  | undescribed hm => exact .inr ⟨_, _, h.moves hm, rfl⟩
  | moved hm ha => exact .inl ((h.moves hm).record ha)
  | finished hr hv hc he => exact .inl (h.ending he)
  | entered | failed | unwarned | emptied => exact .inl h

/-- Nothing that cannot be described is put on record while the run goes on. -/
theorem next {d : Config} (h : Described c.session) (hn : c.next limit = .running d) :
    Described d.session := by
  rcases h.transition (Config.next_eq_iff.1 hn) with hd | ⟨t, e, -, hhalted⟩
  · exact hd
  · cases hhalted

/-- Nothing that cannot be described is put on record by steps that come to their end. -/
theorem runSteps {depth : Nat} {d : Config} (h : Described c.session)
    (hr : Stack.runSteps limit depth c = .running d) : Described d.session := by
  induction c using runSteps.induct limit depth with
  | case1 c he =>
    rw [runSteps_of_atEnd limit he] at hr
    cases hr
    exact h
  | case2 c he outcome t hn =>
    rw [runSteps_of_halted he hn] at hr
    cases hr
  | case3 c he c₁ hn ih =>
    rw [runSteps_of_running he hn] at hr
    exact ih (h.next hn) hr

end Described

/-- A loop that comes to its end does so without debugging, at the same frame. -/
theorem loop_off (h : loop limit outer steps s = .running c) {t : Session Event}
    (ht : t.tracer.debug = false) :
    ∃ u, loop limit outer steps t = .running ⟨c.current, outer, u⟩ := by
  -- What was on record before does not matter, so let it be nothing.
  let blank : Session Event := { s with tracer := { s.tracer with events := [] } }
  obtain ⟨log, -, hagain⟩ := exists_loop_of_debug h
  obtain ⟨henter, hrun, hrest, -⟩ := exists_of_loop (hagain outer blank rfl rfl)
  have hblank : Described blank := nofun
  have halike : AdmitAlike blank t (log.addTo blank).tracer.events := fun e he =>
    (Tracer.admits_of_off ht e).trans (hblank.runSteps hrun e he).symm
  obtain ⟨-, -, log', -, honto⟩ := runSteps_onto hrun (.start []) rfl halike
  rw [Frame.onto_start, Frame.onto_start] at honto
  exact ⟨_, (loop_of_enter henter steps t).trans
    (honto.trans (runSteps_of_atEnd limit ⟨hrest, rfl⟩))⟩

/-- Where a loop comes to its end it is at the same frame, wherever it is as deep and in
    whatever session. -/
theorem current_eq_of_loop {outer' : List Pending} {s' : Session Event} {c' : Config}
    (h : loop limit outer steps s = .running c) (h' : loop limit outer' steps s' = .running c')
    (hl : outer'.length = outer.length) : c'.current = c.current := by
  have hoff : (⟨⟨"", false, []⟩, 0, [], []⟩ : Session Event).tracer.debug = false := rfl
  obtain ⟨log, -, hagain⟩ := exists_loop_of_debug h
  obtain ⟨u, hu⟩ := loop_off (hagain outer' s hl rfl) hoff
  obtain ⟨u', hu'⟩ := loop_off h' hoff
  exact (Config.mk.inj (Next.running.inj (hu'.symm.trans hu))).1

/-! ## Branches -/

/-- What three steps that push add. -/
def pushedLog (first second third : Action) : Log := ⟨3, [], [⟨1, first⟩, ⟨2, second⟩, ⟨3, third⟩]⟩

/-- Where steps come to their end, what makes the derivation move on is recorded without
    failing. -/
theorem admits_of_runSteps {depth : Nat} {d : Config} {step : Value} {frame : Frame}
    {action : Action} {rest : List Value} (hr : c.current.rest = step :: rest)
    (hm : Config.Moves c d frame action) {c' : Config}
    (h : runSteps limit depth c = .running c') :
    d.session.tracer.admits (d.event action) = true := by
  by_contra ha
  have hnext : c.next limit = _ :=
    Config.next_of_transition (.undescribed hm (Bool.eq_false_iff.2 ha))
  rw [runSteps_of_halted (fun he => List.cons_ne_nil _ _ (hr.symm.trans he.1)) hnext] at h
  cases h

section Operands

variable {x y z b t e : Value} {ax ay az : Nat → Action} {depth : Nat} {callers : List Pending}

/-- Three steps that push leave the operands of a conditional, if all of them are recorded
    without failing. -/
theorem runSteps_operands (hx : Pushes x b ax) (hy : Pushes y t ay) (hz : Pushes z e az)
    (hshown : ∀ action ∈ [ax callers.length, ay callers.length, az callers.length],
      s.tracer.admits ⟨s.steps, action⟩ = true) (rest stack : List Value)
    (last : Option Primitive) :
    runSteps limit depth ⟨⟨x :: y :: z :: rest, stack, last⟩, callers, s⟩ =
      runSteps limit depth ⟨⟨rest, e :: t :: b :: stack, last⟩, callers,
        (pushedLog (ax callers.length) (ay callers.length) (az callers.length)).addTo s⟩ := by
  have hlog : pushedLog (ax callers.length) (ay callers.length) (az callers.length) =
      (((Log.empty.tick.record (ax callers.length)).tick.record (ay callers.length)).tick.record
        (az callers.length)) := rfl
  simp only [List.forall_mem_cons] at hshown
  obtain ⟨hax, hay, haz, -⟩ := hshown
  rw [hlog, Log.record_addTo, Log.tick_addTo, Log.record_addTo, Log.tick_addTo, Log.record_addTo,
    Log.tick_addTo, Log.empty_addTo, runSteps_of_pushes hx, runSteps_of_pushes hy,
    runSteps_of_pushes hz]
  · exact haz
  · exact hay
  · exact hax

/-- Three operands whose steps come to their end were recorded without failing. -/
theorem admits_of_operands (hx : Pushes x b ax) (hy : Pushes y t ay) (hz : Pushes z e az)
    {rest stack : List Value} {last : Option Primitive}
    (h : runSteps limit depth ⟨⟨x :: y :: z :: rest, stack, last⟩, callers, s⟩ = .running c) :
    ∀ action ∈ [ax callers.length, ay callers.length, az callers.length],
      s.tracer.admits ⟨s.steps, action⟩ = true := by
  have hax : s.tracer.admits ⟨s.steps, ax callers.length⟩ = true :=
    admits_of_runSteps rfl (.pushed rfl hx) h
  rw [runSteps_of_pushes hx hax] at h
  have hay : s.tracer.admits ⟨s.steps, ay callers.length⟩ = true :=
    admits_of_runSteps rfl (.pushed rfl hy) h
  rw [runSteps_of_pushes hy] at h
  · have haz : s.tracer.admits ⟨s.steps, az callers.length⟩ = true :=
      admits_of_runSteps rfl (.pushed rfl hz) h
    simp only [List.forall_mem_cons]
    exact ⟨hax, hay, haz, nofun⟩
  · exact hay

end Operands

/-- A transition stays inside of a derivation that is not at its end. -/
theorem le_depth_of_next {depth : Nat} {d : Config} (hd : depth ≤ c.depth)
    (he : ¬ c.AtEnd depth) (hn : c.next limit = .running d) : depth ≤ d.depth := by
  cases Config.next_eq_iff.1 hn with
  | entered => exact Nat.le_succ_of_le hd
  | moved hm =>
    cases hm with
    | pushed | applied | decided => exact hd
    | returned hr hv hc =>
      -- Only a derivation inside of the one followed can return before its end.
      rcases Nat.lt_or_eq_of_le hd with hlt | heq
      · rw [Config.depth, hc] at hlt
        exact Nat.le_of_lt_succ hlt
      · exact absurd ⟨hr, heq.symm⟩ he

/-- The steps of a derivation inside of others give the run no value: what halts them is
    a failure. -/
theorem runSteps_ne_halted_ok_of_le {depth : Nat} (hd : depth ≤ c.depth) {v : Value}
    {session : Session Event} : runSteps limit depth c ≠ .halted (.ok v) session := by
  induction c using runSteps.induct limit depth with
  | case1 c he =>
    rw [runSteps_of_atEnd limit he]
    rintro ⟨⟩
  | case2 c he outcome t hn =>
    rw [runSteps_of_halted he hn]
    rintro ⟨⟩
    cases Config.next_eq_iff.1 hn with
    | finished hr hv hc =>
      rw [Config.depth, hc] at hd
      exact he ⟨hr, (congrArg List.length hc).trans (Nat.le_zero.1 hd).symm⟩
  | case3 c he c' hn ih =>
    rw [runSteps_of_running he hn]
    exact ih (le_depth_of_next hd he hn)

/-- What is inside of a derivation ends before the derivation does. -/
theorem runSteps_inside {depth : Nat} (hd : depth < c.depth) :
    runSteps limit depth c = (runSteps limit (depth + 1) c).runSteps limit depth := by
  induction c using runSteps.induct limit (depth + 1) with
  | case1 c he =>
    rw [runSteps_of_atEnd limit he]
    rfl
  | case2 c he outcome t hn =>
    rw [runSteps_of_halted he hn]
    exact runSteps_of_halted (fun h => Nat.ne_of_lt hd h.2.symm) hn
  | case3 c he c' hn ih =>
    rw [runSteps_of_running he hn, runSteps_of_running (fun h => Nat.ne_of_lt hd h.2.symm) hn]
    exact ih (le_depth_of_next hd he hn)

/-- A derivation inside of others that has a value came to its end. -/
theorem exists_running_of_result {q : Pending} {v : Value} {u : Session Event}
    (h : (loop limit (q :: outer) steps s).result = (.ok v, u)) :
    ∃ c, loop limit (q :: outer) steps s = .running c ∧
      c.current.stack.getLast? = some v ∧ c.ending = .ok u := by
  cases hloop : loop limit (q :: outer) steps s with
  | halted outcome t =>
    rw [hloop] at h
    obtain ⟨rfl, rfl⟩ : outcome = .ok v ∧ t = u := Prod.mk.inj h
    rw [loop] at hloop
    cases henter : enter limit (q :: outer).length with
    | error failure =>
      rw [henter] at hloop
      cases hloop
    | ok _ =>
      rw [henter] at hloop
      refine absurd hloop (runSteps_ne_halted_ok_of_le ?_)
      exact Nat.le_refl _
  | running c =>
    rw [hloop, Next.result] at h
    cases hb : c.current.stack.getLast? with
    | none =>
      rw [hb] at h
      cases h
    | some w =>
      rw [hb] at h
      dsimp only at h
      cases hending : c.ending with
      | error failure =>
        rw [hending] at h
        cases h
      | ok session =>
        rw [hending] at h
        obtain ⟨hw, rfl⟩ := Prod.mk.inj h
        exact ⟨c, rfl, hb.trans (congrArg some (Except.ok.inj hw)), hending⟩

/-- What follows when a branch has given its value to the conditional that chose it. -/
def resumed (p : Pending) (callers : List Pending) (v : Value) (s : Session Event) : Next :=
  Config.proceed ⟨p.frame, callers, s⟩ (p.frame.withStack (v :: p.frame.stack))
    (.decided p.condition true v callers.length)

/-- The conditional goes on, if that is recorded without failing. -/
theorem resumed_of_admits {p : Pending} {callers : List Pending} {v : Value}
    (h : s.tracer.admits ⟨s.steps, .decided p.condition true v callers.length⟩ = true) :
    resumed p callers v s = .running ⟨⟨p.frame.rest, v :: p.frame.stack, p.frame.last⟩, callers,
      s.record ⟨s.steps, .decided p.condition true v callers.length⟩⟩ := if_pos h

/-- A conditional whose steps come to their end went on without failing. -/
theorem admits_of_resumed {p : Pending} {callers : List Pending} {v : Value} {depth : Nat}
    (h : (resumed p callers v s).runSteps limit depth = .running c) :
    s.tracer.admits ⟨s.steps, .decided p.condition true v callers.length⟩ = true := by
  by_contra hnot
  have hhalted : resumed p callers v s = .halted (.error (.fault .tooManyDigits)) _ := if_neg hnot
  rw [hhalted] at h
  cases h

/-- A conditional that chooses a sub-derivation runs it. The steps it is among end with the
    failure of the sub-derivation, or go on with its value on the stack. -/
theorem runSteps_of_branch {rest below : List Value} {e t b : Value} {last : Option Primitive}
    (callers : List Pending) (s : Session Event) (hv : chosen b t e = .sub steps) :
    runSteps limit callers.length
        ⟨⟨.morphism .cond :: rest, e :: t :: b :: below, last⟩, callers, s⟩ =
      match (loop limit (⟨⟨rest, below, last⟩, b.truthy⟩ :: callers) steps s.tick).result with
      | (.error failure, u) => .halted (.error failure) u
      | (.ok v, u) =>
        (resumed ⟨⟨rest, below, last⟩, b.truthy⟩ callers v u).runSteps limit callers.length := by
  rw [loop]
  dsimp only [List.length_cons]
  cases henter : enter limit (callers.length + 1) with
  | error failure =>
    exact runSteps_of_halted (fun h => nomatch h.1)
      (Config.next_of_transition (.failed rfl (.nesting rfl hv henter)))
  | ok _ =>
    rw [runSteps_of_entered hv henter, runSteps_inside (Nat.lt_succ_self callers.length)]
    cases hr : runSteps limit (callers.length + 1)
        ⟨.start steps, ⟨⟨rest, below, last⟩, b.truthy⟩ :: callers, s.tick⟩ with
    | halted outcome u =>
      cases outcome with
      | error failure => rfl
      | ok v =>
        refine absurd hr (runSteps_ne_halted_ok_of_le ?_)
        exact Nat.le_refl _
    | running c =>
      have hloop : loop limit (⟨⟨rest, below, last⟩, b.truthy⟩ :: callers) steps s.tick =
          .running c := (loop_of_enter henter _ _).trans hr
      obtain ⟨-, -, hrest, hcallers⟩ := exists_of_loop hloop
      have hinside : ¬ c.AtEnd callers.length := by
        rintro ⟨-, hd⟩
        rw [Config.depth, hcallers] at hd
        exact Nat.succ_ne_self _ hd
      dsimp only [Next.runSteps, Next.result]
      cases hb : c.current.stack.getLast? with
      | none =>
        exact runSteps_of_halted hinside
          (Config.next_of_transition (.emptied hrest (List.getLast?_eq_none_iff.1 hb)))
      | some v =>
        dsimp only
        cases hending : c.ending with
        | error failure =>
          exact runSteps_of_halted hinside
            (Config.next_of_transition (.unwarned hrest hb hending))
        | ok session =>
          rw [runSteps_eq_next hinside,
            Config.next_of_moves (.returned hrest hb hcallers hending)]
          rfl

/-! ## Calls -/

/-- The steps of a call are the loop of a derivation that nothing waits for. -/
theorem Evaluator.runSteps_eq_loop (e : Evaluator) (steps : List Value) :
    e.runSteps steps = loop e.limit [] steps (e.opening steps) := rfl

/-- An admitted call ends with what its loop results in. -/
theorem Evaluator.evaluate_of_loop {e : Evaluator} {derivation : Value}
    (h : e.shell.inFlight = false) (hi : derivation.items? = .ok steps) :
    (e.evaluate derivation).outcome = (loop e.limit [] steps (e.opening steps)).result.1 ∧
      (e.evaluate derivation).after =
        ⟨(loop e.limit [] steps (e.opening steps)).result.2.finish, e.limit⟩ := by
  suffices (e.runSteps steps).run e.limit = (loop e.limit [] steps (e.opening steps)).result by
    rw [← this]
    exact evaluate_of_runSteps h hi
  rw [← runSteps_eq_loop]
  cases hr : e.runSteps steps with
  | halted outcome session => rfl
  | running c =>
    obtain ⟨-, -, hrest, hcallers⟩ := atEnd_of_runSteps hr
    rw [Next.run, Next.result]
    cases hb : c.current.stack.getLast? with
    | none => exact run_of_empty e.limit hrest (List.getLast?_eq_none_iff.1 hb)
    | some v =>
      dsimp only
      cases hending : c.ending with
      | error failure => exact run_of_unwarned e.limit hrest hb hending
      | ok session => exact run_of_bottom e.limit hrest hcallers hb hending

end Heptad.Stack
