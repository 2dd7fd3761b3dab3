import Heptad.Proofs.Stack.Simulation

/-!
# Branches in place of conditionals

A conditional runs the branch it chooses on a stack of its own, one level deeper and with
no primitive applied before. If that leaves one value, the branch could as well stand in
place of the conditional: being less deep is no obstacle, and operands beneath are not
looked at. What can be told apart is the primitive applied latest, which the branch then
leaves behind. Only an application without a name looks at it.

* `choosing`: a conditional that chooses a sub-derivation, as one branch or as the other;
* `NamesFirst`, `exists_running_of_last`: steps whose first application finds a name come to
  the same stack whatever was applied before;
* `exists_inlined`: the branch leaves the same on the stack in place of the conditional;
* `exists_loop_inlined`: so the loops of both derivations come to the same stack;
* `inline_chosen`: and calls return the same.
-/

namespace Heptad.Stack

variable {limit : Value} {n : Nat} {outer : List Pending} {s s' u u' : Session Event} {c : Config}
  {p d r more stack : List Value} {condition other w : Value} {last last' : Option Primitive}

/-! ## The primitive applied latest -/

/-- Steps that apply nothing do not look at the primitive applied latest, nor do they
    change it. -/
theorem simulates_unapplied (more : List Value) (last last' : Option Primitive) :
    Simulates fun f g => f.last = last ∧ .morphism .apply ∉ f.rest ∧
      g = ⟨f.rest ++ more, f.stack, last'⟩ where
  push v h := by
    obtain ⟨hlast, hrest, rfl⟩ := h
    exact ⟨hlast, hrest, rfl⟩
  step h hr := by
    obtain ⟨hlast, hrest, rfl⟩ := h
    rw [hr] at hrest
    exact ⟨_, congrArg (· ++ more) hr, hlast, fun hmem => hrest (List.mem_cons_of_mem _ hmem), rfl⟩
  apply h hr _ _ := by
    obtain ⟨-, hrest, -⟩ := h
    rw [hr] at hrest
    exact absurd List.mem_cons_self hrest
  cond h hs := by
    obtain ⟨hlast, hrest, rfl⟩ := h
    exact ⟨_, hs, hlast, hrest, rfl⟩

/-- Steps that apply nothing come to their end with any primitive applied latest. -/
theorem runSteps_unapplied (hr : .morphism .apply ∉ r) (hs : Recounted n u' u)
    (h : runSteps limit outer.length ⟨⟨r, stack, last⟩, outer, u⟩ = .running c)
    (more : List Value) (last' : Option Primitive) :
    c.current.last = last ∧ ∃ t, Recounted n t c.session ∧
      runSteps limit outer.length ⟨⟨r ++ more, stack, last'⟩, outer, u'⟩ =
        runSteps limit outer.length ⟨⟨more, c.current.stack, last'⟩, outer, t⟩ := by
  obtain ⟨_, t, ⟨hlast, -, rfl⟩, ht, hrun⟩ := runSteps_of_simulates
    (simulates_unapplied more last last') (Nat.le_refl outer.length) ⟨rfl, hr, rfl⟩ hs h
  rw [(atEnd_of_runSteps h).1] at hrun
  exact ⟨hlast, t, ht, hrun⟩

/-- An application that finds a name does not look at the primitive applied latest. -/
theorem next_named (limit : Value) (name : String) (rest below : List Value)
    (last last' : Option Primitive) (outer : List Pending) (s : Session Event) :
    Config.next limit ⟨⟨.morphism .apply :: rest, .str name :: below, last⟩, outer, s⟩ =
      Config.next limit ⟨⟨.morphism .apply :: rest, .str name :: below, last'⟩, outer, s⟩ := rfl

/-- Whether the first application among some steps, if there is one, finds a name on the
    stack. What the steps before it come to is told by `lead`. -/
def NamesFirst (lead : List Value → Next) (r : List Value) : Prop :=
  ∀ r₁ r₂ c, r = r₁ ++ .morphism .apply :: r₂ → .morphism .apply ∉ r₁ → lead r₁ = .running c →
    ∃ name below, c.current.stack = .str name :: below

/-- Steps with the same stacks before their first application find a name there alike. -/
theorem NamesFirst.of_stack {lead lead' : List Value → Next} (h : NamesFirst lead r)
    (hlead : ∀ r₁ c, lead' r₁ = .running c →
      ∃ c', lead r₁ = .running c' ∧ c'.current.stack = c.current.stack) : NamesFirst lead' r := by
  intro r₁ r₂ c hr hr₁ hc
  obtain ⟨c', hc', hstack⟩ := hlead r₁ c hc
  rw [← hstack]
  exact h r₁ r₂ c' hr hr₁ hc'

/-- Steps whose first application, if any, finds a name come to the same stack with any
    primitive applied latest. -/
theorem exists_running_of_last
    (h : runSteps limit outer.length ⟨⟨r, stack, last⟩, outer, u⟩ = .running c)
    (hnamed : NamesFirst
      (fun r₁ => runSteps limit outer.length ⟨⟨r₁, stack, last⟩, outer, u⟩) r)
    (hs : Recounted n u' u) (last' : Option Primitive) :
    ∃ c', runSteps limit outer.length ⟨⟨r, stack, last'⟩, outer, u'⟩ = .running c' ∧
      c'.current.stack = c.current.stack ∧ Recounted n c'.session c.session := by
  by_cases hr : .morphism .apply ∈ r
  · obtain ⟨r₁, r₂, rfl, hr₁⟩ := List.eq_append_cons_of_mem hr
    obtain ⟨c₁, hc₁, hrest⟩ := exists_running_of_append h
    obtain ⟨name, below, hname⟩ := hnamed r₁ r₂ c₁ rfl hr₁ hc₁
    obtain ⟨-, t, ht, hrun⟩ := runSteps_unapplied hr₁ hs hc₁ (.morphism .apply :: r₂) last'
    -- Both come to the application with the same stack, on top of which is a name.
    rw [hrun, hname, runSteps_eq_next (fun he => List.cons_ne_nil _ _ he.1),
      next_named limit name r₂ below last' c₁.current.last,
      ← runSteps_eq_next (fun he => List.cons_ne_nil _ _ he.1), ← hname]
    rw [hrest] at h
    exact Next.Recounted.exists_running (h ▸ recounted_runSteps limit outer.length ht)
  · obtain ⟨-, t, ht, hrun⟩ := runSteps_unapplied hr hs h [] last'
    rw [List.append_nil] at hrun
    exact ⟨_, hrun.trans (runSteps_of_atEnd limit ⟨rfl, rfl⟩), rfl, ht⟩

/-! ## Conditionals -/

/-- The steps of a conditional that chooses a derivation. -/
def choosing (condition other : Value) (d : List Value) : List Value :=
  if condition.truthy then [.literal condition, .sub d, .literal other, .morphism .cond]
  else [.literal condition, .literal other, .sub d, .morphism .cond]

/-- Three of them push the operands, of which the derivation is chosen. -/
theorem exists_operands (condition other : Value) (d : List Value) :
    ∃ x y z t e ax ay az, Pushes x condition ax ∧ Pushes y t ay ∧ Pushes z e az ∧
      chosen condition t e = .sub d ∧
      ∀ rest, choosing condition other d ++ rest = x :: y :: z :: .morphism .cond :: rest := by
  cases hc : condition.truthy with
  | true =>
    refine ⟨_, _, _, _, _, _, _, _, .literal condition, .sub d, .literal other, ?_, fun rest => ?_⟩
    · rw [chosen, hc]
      rfl
    · rw [choosing, hc]
      rfl
  | false =>
    refine ⟨_, _, _, _, _, _, _, _, .literal condition, .literal other, .sub d, ?_, fun rest => ?_⟩
    · rw [chosen, hc]
      rfl
    · rw [choosing, hc]
      rfl

/-- A conditional that comes to its end ran the derivation, one level deeper, and left
    its value on the stack. Its own steps are four. -/
theorem exists_choosing
    (h : runSteps limit outer.length ⟨⟨choosing condition other d ++ r, stack, last⟩, outer, s⟩ =
      .running c) :
    ∃ q t c₁ v u, Recounted 4 s t ∧ loop limit (q :: outer) d t = .running c₁ ∧
      c₁.current.stack.getLast? = some v ∧ c₁.ending = .ok u ∧
      ∀ rest, runSteps limit outer.length
          ⟨⟨choosing condition other d ++ rest, stack, last⟩, outer, s⟩ =
        runSteps limit outer.length ⟨⟨rest, v :: stack, last⟩, outer,
          u.record ⟨u.steps, .decided condition.truthy true v outer.length⟩⟩ := by
  obtain ⟨x, y, z, t, e, ax, ay, az, hx, hy, hz, hchosen, hsteps⟩ :=
    exists_operands condition other d
  rw [hsteps] at h
  have hshown := admits_of_operands hx hy hz h
  let begun :=
    ((pushedLog (ax outer.length) (ay outer.length) (az outer.length)).addTo s).tick
  have hbegun : Recounted 4 s begun := ⟨rfl, List.append_nil _, rfl, rfl⟩
  have hbranch (rest : List Value) :
      runSteps limit outer.length
        ⟨⟨x :: y :: z :: .morphism .cond :: rest, stack, last⟩, outer, s⟩ = _ :=
    (runSteps_operands hx hy hz hshown (.morphism .cond :: rest) stack last).trans
      (runSteps_of_branch outer _ hchosen)
  rw [hbranch] at h
  cases hresult : (loop limit (⟨⟨r, stack, last⟩, condition.truthy⟩ :: outer) d begun).result with
  | mk outcome u =>
    rw [hresult] at h
    cases outcome with
    | error failure => cases h
    | ok v =>
      obtain ⟨c₁, hc₁, hbottom, hending⟩ := exists_running_of_result hresult
      have hdecided := admits_of_resumed h
      refine ⟨_, _, c₁, v, u, hbegun, hc₁, hbottom, hending, fun rest => ?_⟩
      -- What waits for the derivation makes no difference to it.
      obtain ⟨log, hlog, hagain⟩ := exists_loop_of_debug hc₁
      have hloop := hagain (⟨⟨rest, stack, last⟩, condition.truthy⟩ :: outer) begun rfl rfl
      have hresult' : (loop limit (⟨⟨rest, stack, last⟩, condition.truthy⟩ :: outer) d
          begun).result = (.ok v, u) := by
        rw [hloop, ← hlog]
        exact (congrArg Next.result hc₁).symm.trans hresult
      rw [hsteps, hbranch, hresult']
      exact congrArg (Next.runSteps limit outer.length)
        (resumed_of_admits (p := ⟨⟨rest, stack, last⟩, condition.truthy⟩) hdecided)

/-- The derivation in place of the conditional leaves the value as well, if it leaves a
    single one, and counts four steps less. It may leave another primitive applied
    latest. -/
theorem exists_inlined {q₀ : Pending} {t₀ : Session Event} {c₀ : Config}
    (hd : loop limit (q₀ :: outer) d t₀ = .running c₀) (hone : c₀.current.stack = [w])
    (h : runSteps limit outer.length ⟨⟨choosing condition other d ++ r, stack, last⟩, outer, s⟩ =
      .running c)
    (hs : Recounted 0 s' s) :
    ∃ u u', Recounted 4 u' u ∧ ∀ rest,
      runSteps limit outer.length ⟨⟨choosing condition other d ++ rest, stack, last⟩, outer, s⟩ =
          runSteps limit outer.length ⟨⟨rest, w :: stack, last⟩, outer, u⟩ ∧
        runSteps limit outer.length ⟨⟨d ++ rest, stack, last⟩, outer, s'⟩ =
          runSteps limit outer.length
            ⟨⟨rest, w :: stack, c₀.current.last.or last⟩, outer, u'⟩ := by
  obtain ⟨q, t, c₁, v, u, ht, hloop, hv, hending, hchoosing⟩ := exists_choosing h
  -- What was run is what is known of the derivation.
  have hcurrent : c₁.current = c₀.current := current_eq_of_loop hd hloop rfl
  rw [hcurrent, hone, List.getLast?_singleton] at hv
  obtain rfl := Option.some.inj hv
  obtain rfl : c₁.session = u := by
    rw [Config.ending, hcurrent, hone, if_pos List.length_singleton] at hending
    exact Except.ok.inj hending
  -- One level less deep the derivation does the same, and what it does it does on any stack.
  obtain ⟨-, hrun, -, -⟩ := exists_of_loop hloop
  obtain ⟨_, u', rfl, hu', hrun'⟩ := runSteps_of_simulates simulates_eq
    (Nat.le_succ outer.length) rfl (hs.trans ht) hrun
  obtain ⟨hrest, -⟩ := atEnd_of_runSteps hrun
  have hend := hrun'.trans (runSteps_of_atEnd limit ⟨hrest, rfl⟩)
  have hrecorded : Recounted 4 u' (c₁.session.record
      ⟨c₁.session.steps, .decided condition.truthy true w outer.length⟩) :=
    ⟨hu'.steps, hu'.warnings, hu'.source, hu'.debug⟩
  refine ⟨_, u', hrecorded, fun rest => ⟨hchoosing rest, ?_⟩⟩
  obtain ⟨-, -, log', hlog', honto⟩ :=
    runSteps_onto hend ⟨rest, stack, last⟩ rfl (admitAlike_of_debug rfl _)
  have hmid : c₁.current.onto ⟨rest, stack, last⟩ =
      ⟨rest, w :: stack, c₀.current.last.or last⟩ := by
    rw [Frame.onto, hrest, hcurrent, hone]
    rfl
  rw [hmid, ← hlog'] at honto
  exact honto

/-- Steps with the derivation in place of the conditional come to the same stack, if it
    applies nothing, or else if the first application behind it finds a name. -/
theorem exists_loop_inlined {q : Pending} {t : Session Event} {c₀ : Config}
    (h : loop limit outer (p ++ choosing condition other d ++ r) s = .running c)
    (hd : loop limit (q :: outer) d t = .running c₀) (hone : c₀.current.stack = [w])
    (happly : .morphism .apply ∉ d ∨
      NamesFirst (fun r₁ => loop limit outer (p ++ choosing condition other d ++ r₁) s) r)
    (hs : Recounted 0 s' s) :
    ∃ c', loop limit outer (p ++ d ++ r) s' = .running c' ∧
      c'.current.stack = c.current.stack ∧ Recounted 4 c'.session c.session := by
  rw [List.append_assoc] at h ⊢
  -- The steps before the conditional lead both to it.
  obtain ⟨henter, hrun, -, -⟩ := exists_of_loop h
  obtain ⟨b, hb, -⟩ := exists_running_of_append hrun
  obtain ⟨log, -, happend⟩ := exists_loop_append ((loop_of_enter henter p s).trans hb)
  have h' := h
  rw [happend outer _ s rfl rfl] at h'
  obtain ⟨u, u', hu, hinlined⟩ := exists_inlined hd hone h' (hs.addTo log)
  have hloop (rest : List Value) :=
    (happend outer (choosing condition other d ++ rest) s rfl rfl).trans (hinlined rest).1
  have hloop' := (happend outer (d ++ r) s' rfl hs.debug.symm).trans (hinlined r).2
  rw [hloop] at h
  rw [hloop']
  rcases happly with hnone | hnamed
  · obtain ⟨-, hrun, -, -⟩ := exists_of_loop hd
    rw [(runSteps_unapplied hnone (.refl t) hrun [] none).1, Option.none_or]
    exact Next.Recounted.exists_running (h ▸ recounted_runSteps limit outer.length hu)
  · refine exists_running_of_last h (hnamed.of_stack fun r₁ c₁ hc₁ => ⟨c₁, ?_, rfl⟩) hu _
    rw [List.append_assoc]
    exact (hloop r₁).trans hc₁

/-! ## Calls -/

/-- A branch that is run can stand in place of its conditional. Let a call return whose
    derivation has a conditional that chooses a sub-derivation, either as one branch or as
    the other, with any steps before and after; let the sub-derivation leave one value where
    it is run, which is the same wherever it is run one level deep; and let it apply nothing
    itself, or else let the first application of the steps after the conditional, if there
    is one, find a name on the stack. Then a call with the steps of the sub-derivation in
    place of the conditional returns the same value with the same warnings, and counts four
    steps less. -/
theorem inline_chosen (e : Evaluator) {D D' : Value} {p d r : List Value}
    {condition other v : Value} (hD : D.items? = .ok (p ++ choosing condition other d ++ r))
    (hD' : D'.items? = .ok (p ++ d ++ r)) (hv : (e.evaluate D).outcome = .ok v)
    {q : Pending} {s : Session Event} {c : Config} (hd : loop e.limit [q] d s = .running c)
    (hone : c.current.stack.length = 1)
    (happly : .morphism .apply ∉ d ∨
      NamesFirst (fun r₁ => e.runSteps (p ++ choosing condition other d ++ r₁)) r) :
    (e.evaluate D').outcome = .ok v ∧
      (e.evaluate D').after.shell.warnings = (e.evaluate D).after.shell.warnings ∧
      (e.evaluate D').after.shell.steps + 4 = (e.evaluate D).after.shell.steps := by
  have hfree := Evaluator.inFlight_of_ok hv
  obtain ⟨w, hw⟩ := List.length_eq_one_iff.1 hone
  obtain ⟨c₂, session, hc₂, hbottom, hending, hafter⟩ :=
    Evaluator.exists_end_of_evaluate hfree hD hv
  rw [Evaluator.runSteps_eq_loop] at hc₂
  have hopening : Recounted 0 (e.opening (p ++ d ++ r))
      (e.opening (p ++ choosing condition other d ++ r)) := ⟨rfl, rfl, rfl, rfl⟩
  have hnamed : .morphism .apply ∉ d ∨
      NamesFirst (fun r₁ => loop e.limit [] (p ++ choosing condition other d ++ r₁)
        (e.opening (p ++ choosing condition other d ++ r))) r := by
    refine happly.imp_right fun hnamed => hnamed.of_stack fun r₁ c₁ hc₁ => ?_
    -- Alone these steps come to the same stack, in a session of their own.
    obtain ⟨log, -, hagain⟩ := exists_loop_of_debug hc₁
    exact ⟨_, hagain [] (e.opening (p ++ choosing condition other d ++ r₁)) rfl rfl, rfl⟩
  obtain ⟨c', hc', hstack, hs'⟩ := exists_loop_inlined hc₂ hd hw hnamed hopening
  obtain ⟨session', hending', hsessions⟩ := hs'.ending_left hstack.symm hending
  obtain ⟨houtcome, hafter'⟩ :=
    Evaluator.evaluate_of_end hfree hD' hc' (hstack ▸ hbottom) hending'
  rw [hafter, hafter']
  exact ⟨houtcome, hsessions.warnings.symm, hsessions.steps.symm⟩

/-- A product of two numbers. -/
def six : List Value :=
  [.literal (.int 2), .literal (.int 3), .literal (.str "multiply"), .morphism .apply]

/-- The product, and as one more factor what a conditional leaves. -/
def sixTimesChosen : List Value :=
  six ++ [.literal (.bool true), .sub [.literal (.int 7)], .literal (.int 0), .morphism .cond,
    .morphism .apply]

/-- The product, left by a conditional. -/
def chosenSix : List Value := [.literal .null, .literal (.int 0), .sub six, .morphism .cond]

theorem runSteps_sixTimesChosen {s : Session Event} (hs : s.tracer.debug = false) :
    ∃ t, runSteps (.int 1) 0 ⟨.start sixTimesChosen, [], s⟩ =
      .running ⟨⟨[], [.int 42], some .multiply⟩, [], t⟩ := by
  obtain ⟨⟨source, debug, events⟩, count, warnings, lines⟩ := s
  obtain rfl : debug = false := hs
  have hoperands : ∃ t, t.tracer.debug = false ∧ runSteps (.int 1) 0
        ⟨.start sixTimesChosen, [], ⟨⟨source, false, events⟩, count, warnings, lines⟩⟩ =
      runSteps (.int 1) 0 ⟨⟨[.morphism .cond, .morphism .apply],
        [.int 0, .sub [.literal (.int 7)], .bool true, .int 6], some .multiply⟩, [], t⟩ :=
    ⟨_, rfl, runSteps_eq_advance _ 0 7 _⟩
  obtain ⟨⟨⟨source', _, events'⟩, count', warnings', lines'⟩, rfl, hrun⟩ := hoperands
  rw [hrun, runSteps_of_entered rfl (enter_int_eq_ok.2 (by decide))]
  exact ⟨_, (runSteps_eq_advance _ 0 3 _).trans (runSteps_of_atEnd _ ⟨rfl, rfl⟩)⟩

theorem runSteps_chosenSix {s : Session Event} (hs : s.tracer.debug = false) :
    ∃ t, runSteps (.int 1) 0 ⟨.start chosenSix, [], s⟩ =
      .running ⟨⟨[], [.int 6], none⟩, [], t⟩ := by
  obtain ⟨⟨source, debug, events⟩, count, warnings, lines⟩ := s
  obtain rfl : debug = false := hs
  have hoperands : ∃ t, t.tracer.debug = false ∧ runSteps (.int 1) 0
        ⟨.start chosenSix, [], ⟨⟨source, false, events⟩, count, warnings, lines⟩⟩ =
      runSteps (.int 1) 0 ⟨⟨[.morphism .cond], [.sub six, .int 0, .null], none⟩, [], t⟩ :=
    ⟨_, rfl, runSteps_eq_advance _ 0 3 _⟩
  obtain ⟨⟨⟨source', _, events'⟩, count', warnings', lines'⟩, rfl, hrun⟩ := hoperands
  rw [hrun, runSteps_of_entered rfl (enter_int_eq_ok.2 (by decide))]
  exact ⟨_, (runSteps_eq_advance _ 0 5 _).trans (runSteps_of_atEnd _ ⟨rfl, rfl⟩)⟩

/-- A branch that applies nothing, before the product applied latest is applied once more;
    and one that applies a product, with nothing behind it. -/
theorem inline_chosen_of_six :
    ((Evaluator.new .null (.int 1)).evaluate
        (.list (six ++ [.literal (.int 7), .morphism .apply]))).outcome = .ok (.int 42) ∧
      ((Evaluator.new .null (.int 1)).evaluate (.list six)).after.shell.steps + 4 =
        ((Evaluator.new .null (.int 1)).evaluate (.list chosenSix)).after.shell.steps := by
  have hzero : enter (Evaluator.new .null (.int 1)).limit 0 = .ok () :=
    enter_int_eq_ok.2 (by decide)
  have hone : enter (Evaluator.new .null (.int 1)).limit
      [Pending.mk (.start []) true].length = .ok () := enter_int_eq_ok.2 (by decide)
  refine ⟨?_, ?_⟩
  · have hD : (Value.list sixTimesChosen).items? =
        .ok (six ++ choosing (.bool true) (.int 0) [.literal (.int 7)] ++ [.morphism .apply]) := rfl
    have hD' : (Value.list (six ++ [.literal (.int 7), .morphism .apply])).items? =
        .ok (six ++ [.literal (.int 7)] ++ [.morphism .apply]) := rfl
    obtain ⟨t, hrun⟩ := runSteps_sixTimesChosen
      (s := (Evaluator.new .null (.int 1)).opening sixTimesChosen) rfl
    have hv := (Evaluator.evaluate_of_end rfl hD
      ((Evaluator.runSteps_of_enter hzero sixTimesChosen).trans hrun) rfl rfl).1
    have hd := (loop_of_enter hone [.literal (.int 7)]
      ((Evaluator.new .null (.int 1)).opening [.literal (.int 7)])).trans
      ((runSteps_eq_advance _ 1 1 _).trans (runSteps_of_atEnd _ ⟨rfl, rfl⟩))
    exact (inline_chosen (.new .null (.int 1)) hD hD' hv hd rfl (.inl nofun)).1
  · have hD : (Value.list chosenSix).items? =
        .ok ([] ++ choosing .null (.int 0) six ++ []) := rfl
    have hD' : (Value.list six).items? = .ok ([] ++ six ++ []) := rfl
    obtain ⟨t, hrun⟩ := runSteps_chosenSix
      (s := (Evaluator.new .null (.int 1)).opening chosenSix) rfl
    have hv := (Evaluator.evaluate_of_end rfl hD
      ((Evaluator.runSteps_of_enter hzero chosenSix).trans hrun) rfl rfl).1
    have hd := (loop_of_enter hone six ((Evaluator.new .null (.int 1)).opening six)).trans
      ((runSteps_eq_advance _ 1 4 _).trans (runSteps_of_atEnd _ ⟨rfl, rfl⟩))
    refine (inline_chosen (.new .null (.int 1)) hD hD' hv hd rfl (.inr fun r₁ r₂ c₁ hr => ?_)).2.2
    exact absurd hr.symm (List.append_ne_nil_of_right_ne_nil r₁ (List.cons_ne_nil _ _))

end Heptad.Stack
