import Heptad.Proofs.Stack.Depth
import Heptad.Proofs.Stack.Loop
import Heptad.Proofs.Stack.Memoryless

/-!
# The branch that is not chosen

A conditional takes both of its branches off the stack and looks at one of them. The
other one was pushed, and that is all there is ever to be seen of it: whatever is pushed
in its place, the run goes on in the same configuration. With debugging what is pushed
is described as well, which an integer of too many digits cannot be.

* `run_of_chosen`: what follows a conditional depends on the branch it chooses only;
* `Evaluator.seen_of_place`: a call shows a step that pushes by what follows it;
* `unchosen_unseen`: so it shows nothing of the other branch but that it was pushed;
* `unchosen_huge_seen`: unless that has to be described and cannot be.
-/

namespace Heptad.Stack

variable {limit : Value} {x y z u w b t f t' f' v v' : Value} {ax ay az au aw : Nat → Action}
  {callers : List Pending} {s : Session Event}

/-- Configurations that are followed by the same run alike. -/
theorem run_of_next_eq {c c' : Config} (h : c'.next limit = c.next limit) :
    run limit c' = run limit c := by
  cases hn : c.next limit with
  | halted outcome session => rw [run_of_halted hn, run_of_halted (h.trans hn)]
  | running d => rw [run_of_running hn, run_of_running (h.trans hn)]

/-- What follows a conditional depends on the branch it chooses only. -/
theorem run_of_chosen (h : chosen b t' f' = chosen b t f) (rest below : List Value)
    (last : Option Primitive) (callers : List Pending) (s : Session Event) :
    run limit ⟨⟨.morphism .cond :: rest, f' :: t' :: b :: below, last⟩, callers, s⟩ =
      run limit ⟨⟨.morphism .cond :: rest, f :: t :: b :: below, last⟩, callers, s⟩ := by
  apply run_of_next_eq
  rw [Config.next_of_cons rfl, Config.next_of_cons rfl, Config.execute, Config.execute,
    Config.choose_of_stack rfl, Config.choose_of_stack rfl, h]
  rfl

/-- Pushing the other branch on top of the first makes no difference. -/
theorem run_of_pushes_chosen (hz : Pushes z f az) (h : chosen b t' f = chosen b t f)
    (rest below : List Value) (last : Option Primitive) (callers : List Pending)
    (s : Session Event) :
    run limit ⟨⟨z :: .morphism .cond :: rest, t' :: b :: below, last⟩, callers, s⟩ =
      run limit ⟨⟨z :: .morphism .cond :: rest, t :: b :: below, last⟩, callers, s⟩ := by
  have hnext (t : Value) : Config.next limit
      ⟨⟨z :: .morphism .cond :: rest, t :: b :: below, last⟩, callers, s⟩ = _ :=
    Config.next_of_moves (.pushed rfl hz)
  cases ha : s.tracer.admits ⟨s.steps, az callers.length⟩ with
  | true =>
    have hrunning (t : Value) := run_of_running ((hnext t).trans (if_pos ha))
    exact (hrunning t').trans ((run_of_chosen h rest below last callers _).trans (hrunning t).symm)
  | false =>
    have hhalted (t : Value) :=
      run_of_halted ((hnext t).trans (if_neg (Bool.eq_false_iff.1 ha)))
    exact (hhalted t').trans (hhalted t).symm

/-- Steps whose last one pushes leave what it pushes on top of what the others leave. -/
theorem exists_loop_of_push {steps : List Value} {outer : List Pending} {c : Config}
    (hx : Pushes x b ax) (h : loop limit outer (steps ++ [x]) s = .running c) :
    ∃ c₁, loop limit outer steps s = .running c₁ ∧
      c.current.stack = b :: c₁.current.stack := by
  obtain ⟨henter, hrun, -, -⟩ := exists_of_loop h
  obtain ⟨c₁, hc₁, hrest⟩ := exists_running_of_append hrun
  have hlast := hrest.symm.trans hrun
  have hpush : Config.Moves ⟨⟨[x], c₁.current.stack, c₁.current.last⟩, outer, c₁.session⟩ _ _ _ :=
    .pushed rfl hx
  have hshown : c₁.session.tracer.admits ⟨c₁.session.steps, ax outer.length⟩ = true :=
    (admits_of_runSteps rfl hpush hlast :)
  rw [runSteps_of_pushes hx hshown] at hlast
  refine ⟨c₁, (loop_of_enter henter steps s).trans hc₁, ?_⟩
  have hend : Config.AtEnd outer.length ⟨⟨[], b :: c₁.current.stack, c₁.current.last⟩, outer,
    c₁.session.tick.record ⟨c₁.session.tick.steps, ax outer.length⟩⟩ := ⟨rfl, rfl⟩
  rw [runSteps_of_atEnd limit hend] at hlast
  rw [← Next.running.inj hlast]

namespace Evaluator

variable {e : Evaluator} {D D' : Value} {before after : List Value} {c : Config}

/-- What is seen of a call whose session was added to in two parts. -/
theorem seen_of_logs {outcome : Except Failure Value} {first second : Log} {steps : List Value}
    (houtcome : (e.evaluate D).outcome = outcome)
    (hafter : (e.evaluate D).after =
      ⟨(second.addTo (first.addTo (e.opening steps))).finish, e.limit⟩) :
    e.seen D = ⟨outcome, first.steps + second.steps, first.warnings ++ second.warnings,
      first.events ++ second.events.map (Event.shift first.steps)⟩ := by
  obtain ⟨hsteps, hwarnings, hevents⟩ := addTo_opening first e steps
  rw [seen, houtcome, hafter, ← hsteps, ← hwarnings, ← hevents]
  rfl

/-- Calls show the same, but for what is pushed in one place, if it can be described and
    the same run follows. -/
theorem seen_of_place (hfree : e.shell.inFlight = false) (hc : e.runSteps before = .running c)
    (hD : D.items? = .ok (before ++ u :: after)) (hD' : D'.items? = .ok (before ++ w :: after))
    (hu : Pushes u v au) (hw : Pushes w v' aw)
    (hshown : ∀ action ∈ [au 0, aw 0], e.shell.tracer.admits ⟨0, action⟩ = true)
    (hrun : ∀ s, run e.limit ⟨⟨after, v' :: c.current.stack, c.current.last⟩, [], s⟩ =
      run e.limit ⟨⟨after, v :: c.current.stack, c.current.last⟩, [], s⟩) :
    ∃ outcome steps warnings later,
      e.seen D = ⟨outcome, steps, warnings,
        c.session.tracer.events ++ ⟨c.session.steps + 1, au 0⟩ :: later⟩ ∧
      e.seen D' = ⟨outcome, steps, warnings,
        c.session.tracer.events ++ ⟨c.session.steps + 1, aw 0⟩ :: later⟩ := by
  simp only [List.forall_mem_cons] at hshown
  obtain ⟨hau, haw, -⟩ := hshown
  rw [runSteps_eq_loop] at hc
  obtain ⟨log, hlog, happend⟩ := exists_loop_append hc
  have hcall {D u v : Value} {au : Nat → Action} (hD : D.items? = .ok (before ++ u :: after))
      (hu : Pushes u v au) (hau : e.shell.tracer.admits ⟨0, au 0⟩ = true) :
      (e.evaluate D).outcome = (run e.limit ⟨⟨after, v :: c.current.stack, c.current.last⟩, [],
          (log.tick.record (au 0)).addTo (e.opening (before ++ u :: after))⟩).1 ∧
        (e.evaluate D).after =
          ⟨(run e.limit ⟨⟨after, v :: c.current.stack, c.current.last⟩, [],
            (log.tick.record (au 0)).addTo (e.opening (before ++ u :: after))⟩).2.finish,
          e.limit⟩ := by
    have hends := evaluate_of_runSteps hfree hD
    rw [runSteps_eq_loop, happend [] _ (e.opening (before ++ u :: after)) rfl rfl,
      runSteps_of_pushes hu, ← run_eq_runSteps] at hends
    · rw [Log.record_addTo, Log.tick_addTo]
      exact hends
    · exact hau
  obtain ⟨houtcome, hafter⟩ := hcall hD hu hau
  obtain ⟨houtcome', hafter'⟩ := hcall hD' hw haw
  rw [hrun] at houtcome' hafter'
  cases hends : run e.limit ⟨⟨after, v :: c.current.stack, c.current.last⟩, [],
      (log.tick.record (au 0)).addTo (e.opening (before ++ u :: after))⟩ with
  | mk outcome t =>
    have hcount : ((log.tick.record (aw 0)).addTo (e.opening (before ++ w :: after))).steps =
      ((log.tick.record (au 0)).addTo (e.opening (before ++ u :: after))).steps := rfl
    obtain ⟨t', hends', second, rfl, rfl⟩ :=
      exists_run_of_session hcount rfl hends (admitAlike_of_debug rfl _)
    rw [hends] at houtcome hafter
    rw [hends'] at houtcome' hafter'
    obtain ⟨hsteps, -, hevents⟩ := addTo_opening log e before
    rw [hlog, hsteps, hevents, seen_of_logs houtcome hafter, seen_of_logs houtcome' hafter']
    simp only [Log.record, Log.tick, List.append_assoc, List.singleton_append]
    exact ⟨_, _, _, _, rfl, rfl⟩

/-- Whatever comes after steps that fail, a call shows the same. -/
theorem seen_of_halted (hfree : e.shell.inFlight = false) {outcome : Except Failure Value}
    {session : Session Event} (hp : e.runSteps before = .halted outcome session)
    {more more' : List Value} (hD : D.items? = .ok (before ++ more))
    (hD' : D'.items? = .ok (before ++ more')) : e.seen D' = e.seen D := by
  cases outcome with
  | ok v => exact absurd hp runSteps_ne_ok
  | error failure =>
    have hP : (Value.list before).items? = .ok before := rfl
    obtain ⟨houtcome, -, hafter⟩ := evaluate_append_of_error hfree hP hD hp
    obtain ⟨houtcome', -, hafter'⟩ := evaluate_append_of_error hfree hP hD' hp
    rw [seen, seen, houtcome, houtcome', hafter, hafter']

/-- A call shows the same if it is refused or fails before one place. -/
theorem seen_of_unreached
    (h : e.shell.inFlight = true ∨ ∀ c, e.runSteps before ≠ .running c)
    {more more' : List Value} (hD : D.items? = .ok (before ++ more))
    (hD' : D'.items? = .ok (before ++ more')) : e.seen D' = e.seen D := by
  cases hheld : e.shell.inFlight with
  | true =>
    rw [seen, seen, evaluate, evaluate, Shell.call_of_inFlight hheld, Shell.call_of_inFlight hheld]
  | false =>
    cases hp : e.runSteps before with
    | running c => exact absurd hp (h.resolve_left (Bool.eq_false_iff.1 hheld) c)
    | halted outcome session => exact seen_of_halted hheld hp hD hD'

end Evaluator

/-- Nothing is seen of the branch that is not chosen but that it was pushed. Let three
    steps push the operands of a conditional, whatever comes before and after, and let
    another step push something else in place of the branch that is not chosen. If both
    can be described, where they have to be, a call shows the same: the same outcome, count
    and warnings, and the same trace but for what the step in that place did; and all of
    the trace is the same if this step is never run, because the call is refused or fails
    before. -/
theorem unchosen_unseen (e : Evaluator) {D D' : Value} {p r : List Value} {x y z w b t f v : Value}
    {ax ay az aw : Nat → Action} (hx : Pushes x b ax) (hy : Pushes y t ay) (hz : Pushes z f az)
    (hw : Pushes w v aw) (hD : D.items? = .ok (p ++ x :: y :: z :: .morphism .cond :: r))
    (hD' : D'.items? =
      .ok (p ++ x :: (if b.truthy then [y, w] else [w, z]) ++ .morphism .cond :: r))
    (hshown : ∀ action ∈ [if b.truthy then az 0 else ay 0, aw 0],
      e.shell.tracer.admits ⟨0, action⟩ = true) :
    let before := p ++ if b.truthy then [x, y] else [x]
    (e.shell.inFlight = true ∨ (∀ c, e.runSteps before ≠ .running c) → e.seen D' = e.seen D) ∧
    ∀ c, e.shell.inFlight = false → e.runSteps before = .running c →
      ∃ outcome steps warnings later,
        e.seen D = ⟨outcome, steps, warnings, c.session.tracer.events ++
          ⟨c.session.steps + 1, if b.truthy then az 0 else ay 0⟩ :: later⟩ ∧
        e.seen D' = ⟨outcome, steps, warnings, c.session.tracer.events ++
          ⟨c.session.steps + 1, aw 0⟩ :: later⟩ := by
  cases hb : b.truthy with
  | true =>
    rw [hb] at hD' hshown
    have hbefore : p ++ [x, y] = p ++ [x] ++ [y] := (List.append_assoc p [x] [y]).symm
    have hD : D.items? = .ok (p ++ [x, y] ++ z :: .morphism .cond :: r) :=
      hD.trans (congrArg Except.ok (List.append_assoc p [x, y] _).symm)
    have hD' : D'.items? = .ok (p ++ [x, y] ++ w :: .morphism .cond :: r) := by
      rw [hD']
      simp only [if_true, List.append_assoc, List.cons_append, List.nil_append]
    refine ⟨fun h => Evaluator.seen_of_unreached h hD hD', fun c hfree hc => ?_⟩
    refine Evaluator.seen_of_place hfree hc hD hD' hz hw hshown fun s => ?_
    rw [Evaluator.runSteps_eq_loop, if_pos rfl, hbefore] at hc
    obtain ⟨c₁, hc₁, hstack⟩ := exists_loop_of_push hy hc
    obtain ⟨c₂, -, hstack₁⟩ := exists_loop_of_push hx hc₁
    rw [hstack, hstack₁]
    apply run_of_chosen
    rw [chosen, chosen, hb]
    rfl
  | false =>
    rw [hb] at hD' hshown
    have hD : D.items? = .ok (p ++ [x] ++ y :: z :: .morphism .cond :: r) :=
      hD.trans (congrArg Except.ok (List.append_assoc p [x] _).symm)
    have hD' : D'.items? = .ok (p ++ [x] ++ w :: z :: .morphism .cond :: r) := by
      rw [hD']
      simp only [Bool.false_eq_true, if_false, List.append_assoc, List.cons_append, List.nil_append]
    refine ⟨fun h => Evaluator.seen_of_unreached h hD hD', fun c hfree hc => ?_⟩
    refine Evaluator.seen_of_place hfree hc hD hD' hy hw hshown fun s => ?_
    rw [Evaluator.runSteps_eq_loop, if_neg Bool.false_ne_true] at hc
    obtain ⟨c₁, -, hstack⟩ := exists_loop_of_push hx hc
    rw [hstack]
    apply run_of_pushes_chosen hz
    rw [chosen, chosen, hb]
    rfl

/-- With no room for a branch: a conditional shows nothing of what is no step in the
    branch it does not choose, and neither does one that comes after a failure. -/
theorem unchosen_unseen_of_branch :
    let e := Evaluator.new .null (.int 0)
    let nested : Value := .sub [.null, .sub [.morphism .apply]]
    (e.seen (.list [.literal (.int 1), .literal (.int 2), nested, .morphism .cond])).outcome =
        (e.seen (.list [.literal (.int 1), .literal (.int 2), .literal .null,
          .morphism .cond])).outcome ∧
      e.seen (.list [.null, .literal (.int 0), nested, .literal (.int 2), .morphism .cond]) =
        e.seen (.list [.null, .literal (.int 0), .literal .null, .literal (.int 2),
          .morphism .cond]) := by
  intro e nested
  have henter : enter e.limit 0 = .ok () := enter_int_eq_ok.2 (Int.le_refl 0)
  have hnested := Pushes.sub [.null, .sub [.morphism .apply]]
  refine ⟨?_, ?_⟩
  · have hD : (Value.list [.literal (.int 1), .literal (.int 2), .literal .null,
        .morphism .cond]).items? =
      .ok ([] ++ [.literal (.int 1), .literal (.int 2), .literal .null, .morphism .cond]) := rfl
    have hD' : (Value.list [.literal (.int 1), .literal (.int 2), nested,
        .morphism .cond]).items? =
      .ok ([] ++ [.literal (.int 1), .literal (.int 2), nested, .morphism .cond]) := rfl
    have hoperands := (e.runSteps_of_enter henter [.literal (.int 1), .literal (.int 2)]).trans
      ((runSteps_eq_advance _ 0 2 _).trans (runSteps_of_atEnd _ ⟨rfl, rfl⟩))
    obtain ⟨outcome, _, _, _, hseen, hseen'⟩ :=
      (unchosen_unseen e (.literal _) (.literal _) (.literal _) hnested hD hD'
        fun _ _ => Tracer.admits_of_off rfl _).2 _ rfl hoperands
    rw [hseen, hseen']
  · have hD : (Value.list [.null, .literal (.int 0), .literal .null, .literal (.int 2),
        .morphism .cond]).items? =
      .ok ([.null] ++
        [.literal (.int 0), .literal .null, .literal (.int 2), .morphism .cond]) := rfl
    have hD' : (Value.list [.null, .literal (.int 0), nested, .literal (.int 2),
        .morphism .cond]).items? =
      .ok ([.null] ++ [.literal (.int 0), nested, .literal (.int 2), .morphism .cond]) := rfl
    have hfails := (e.runSteps_of_enter henter [.null, .literal (.int 0)]).trans
      (runSteps_of_halted (fun h => nomatch h.1)
        (Config.next_of_transition (.failed rfl (.notAStep rfl))))
    refine (unchosen_unseen e (.literal _) (.literal _) (.literal _) hnested hD hD'
      fun _ _ => Tracer.admits_of_off rfl _).1 (.inr fun c hc => ?_)
    cases hfails.symm.trans hc

/-- With debugging a branch that is not chosen is seen if it is an integer of too many
    digits: pushing it fails, where a truth value in its place makes no difference. -/
theorem unchosen_huge_seen :
    ((Evaluator.new (.bool true) .null).evaluate (.list [.literal (.bool true), .literal .null,
        .literal (.bool false), .morphism .cond])).outcome = .ok .null ∧
      ((Evaluator.new (.bool true) .null).evaluate (.list [.literal (.bool true), .literal .null,
        .literal .huge, .morphism .cond])).outcome = .error (.fault .tooManyDigits) := by
  have henter : enter (Evaluator.new (.bool true) .null).limit 0 = .ok () :=
    enter_int_eq_ok.2 (by decide)
  refine ⟨?_, ?_⟩
  · have hend := (Evaluator.runSteps_of_enter henter [.literal (.bool true), .literal .null,
        .literal (.bool false), .morphism .cond]).trans
      ((runSteps_eq_advance _ 0 4 _).trans (runSteps_of_atEnd _ ⟨rfl, rfl⟩))
    exact (Evaluator.evaluate_of_end rfl rfl hend rfl rfl).1
  · have hfails {s : Session Event} (hs : s.tracer.debug = true) :
        ∃ t, runSteps (Evaluator.new (.bool true) .null).limit 0
            ⟨.start [.literal (.bool true), .literal .null, .literal .huge, .morphism .cond],
              [], s⟩ =
          .halted (.error (.fault .tooManyDigits)) t := by
      rw [Frame.start, runSteps_of_pushes (.literal _) (Tracer.admits_of_showable rfl),
        runSteps_of_pushes (.literal _) (Tracer.admits_of_showable rfl)]
      exact runSteps_of_undescribed (.literal _) (by exact not_admits_huge hs _ _) _ _ _
    obtain ⟨t, hhalted⟩ := hfails (s := (Evaluator.new (.bool true) .null).opening
      [.literal (.bool true), .literal .null, .literal .huge, .morphism .cond]) rfl
    have hrun := (Evaluator.runSteps_of_enter henter _).trans hhalted
    have hfree : (Evaluator.new (.bool true) .null).shell.inFlight = false := rfl
    have hcall := (Evaluator.evaluate_of_runSteps hfree
      (rfl : (Value.list [.literal (.bool true), .literal .null, .literal .huge,
        .morphism .cond]).items? = .ok _)).1
    rw [hrun] at hcall
    exact hcall

end Heptad.Stack
