import Heptad.Proofs.Stack.Depth
import Heptad.Proofs.Stack.Frame
import Heptad.Stack.Evaluator

/-!
# Derivations one behind the other

Steps that come to their end on a stack of their own come to it on top of any
operands, and add the same (`runSteps_beneath`). So derivations compose:

* `runSteps_append`: the steps of two derivations, one behind the other, end with
  the stack of the second on top of that of the first;
* `evaluate_append_of_ok`: the value of both is that of the first, and what is
  left over is one more warning;
* `evaluate_append_of_error`: if the steps of the first fail, so do both, and
  nothing of the second is seen.
-/

namespace Heptad.Stack

variable {limit : Value} {outer : List Pending} {s : Session Event}

/-! ## Steps -/

/-- The frame law: operands beneath and a primitive applied before make no
    difference to steps that come to their end without them, nor do the place and
    the session they are run in, if this is debugged alike. -/
theorem runSteps_beneath {steps : List Value} {c : Config}
    (h : runSteps limit outer.length ⟨.start steps, outer, s⟩ = .running c) (below : List Value)
    (last : Option Primitive) {outer' : List Pending} (hl : outer'.length = outer.length)
    {s' : Session Event} (hdebug : s'.tracer.debug = s.tracer.debug) :
    ∃ log : Log, c.session = log.addTo s ∧
      runSteps limit outer'.length ⟨⟨steps, below, last⟩, outer', s'⟩ =
        .running ⟨⟨[], c.current.stack ++ below, c.current.last.or last⟩, outer',
          log.addTo s'⟩ := by
  obtain ⟨hr, -, log, hs, hrun⟩ :=
    runSteps_onto h ⟨[], below, last⟩ hl (admitAlike_of_debug hdebug _)
  refine ⟨log, hs, ?_⟩
  rw [Frame.onto, Frame.onto, hr, List.append_nil] at hrun
  exact hrun.trans (runSteps_of_atEnd limit ⟨rfl, rfl⟩)

/-- The steps of two derivations, one behind the other. -/
theorem runSteps_append (outer : List Pending) {ds es : List Value} {c d : Config}
    {s t : Session Event}
    (hd : runSteps limit outer.length ⟨.start ds, outer, s⟩ = .running c)
    (he : runSteps limit outer.length ⟨.start es, outer, t⟩ = .running d) {u : Session Event}
    (hs : u.tracer.debug = s.tracer.debug) (ht : u.tracer.debug = t.tracer.debug) :
    ∃ first second : Log, c.session = first.addTo s ∧ d.session = second.addTo t ∧
      runSteps limit outer.length ⟨.start (ds ++ es), outer, u⟩ =
        .running ⟨⟨[], d.current.stack ++ c.current.stack, d.current.last.or c.current.last⟩, outer,
          second.addTo (first.addTo u)⟩ := by
  obtain ⟨hr, -, first, hc, hfirst⟩ :=
    runSteps_onto hd (.start es) rfl (admitAlike_of_debug hs _)
  have hdebug : (first.addTo u).tracer.debug = t.tracer.debug := ht
  obtain ⟨second, hd', hsecond⟩ :=
    runSteps_beneath he c.current.stack c.current.last rfl hdebug
  refine ⟨first, second, hc, hd', ?_⟩
  -- The first steps lead to the second ones, on top of what they left.
  have hmid : c.current.onto (.start es) = ⟨es, c.current.stack, c.current.last⟩ := by
    rw [Frame.onto, hr, Frame.start, List.append_nil, Option.or_none, List.nil_append]
  rw [hmid, hsecond] at hfirst
  exact hfirst

/-! ## Calls -/

namespace Evaluator

variable {e : Evaluator} {D E DE : Value} {ds es : List Value}

/-- A call begins with nothing in its session, and ends with what was added to it. -/
theorem addTo_opening (log : Log) (e : Evaluator) (steps : List Value) :
    (log.addTo (e.opening steps)).steps = log.steps ∧
      (log.addTo (e.opening steps)).warnings = log.warnings ∧
      (log.addTo (e.opening steps)).tracer.events = log.events := by
  refine ⟨Nat.zero_add _, List.nil_append _, ?_⟩
  show [] ++ log.events.map (Event.shift 0) = log.events
  rw [List.nil_append, List.map_congr_left fun e _ => e.shift_zero, List.map_id']

/-- Two derivations that have values have one together, if what both leave has a text:
    the steps of both are run, the value is that of the first, and the values left on top
    of it are the reason for one warning more. -/
theorem evaluate_append_of_ok (h : e.shell.inFlight = false) (hD : D.items? = .ok ds)
    (hE : E.items? = .ok es) (hDE : DE.items? = .ok (ds ++ es)) {v w : Value}
    (hv : (e.evaluate D).outcome = .ok v) (hw : (e.evaluate E).outcome = .ok w) :
    ∃ c₁ c₂ c, e.runSteps ds = .running c₁ ∧ e.runSteps es = .running c₂ ∧
      e.runSteps (ds ++ es) = .running c ∧
      c₁.current.stack.getLast? = some v ∧
      c.current.stack = c₂.current.stack ++ c₁.current.stack ∧
      (e.evaluate DE).outcome =
        (if Value.areShowable c.current.stack then .ok v else .error (.fault .tooManyDigits)) ∧
      (e.evaluate DE).after.shell.steps =
        (e.evaluate D).after.shell.steps + (e.evaluate E).after.shell.steps ∧
      (e.evaluate DE).after.shell.warnings =
        c₁.session.warnings ++ c₂.session.warnings ++ c.leftovers ∧
      (e.evaluate DE).after.shell.tracer.events =
        c₁.session.tracer.events ++ c₂.session.tracer.events.map (Event.shift c₁.session.steps) ++
          c.leftovers.map fun message => ⟨c.session.steps, .warned message⟩ := by
  obtain ⟨c₁, t₁, hc₁, hb₁, ht₁, hD'⟩ := exists_end_of_evaluate h hD hv
  obtain ⟨c₂, t₂, hc₂, hb₂, ht₂, hE'⟩ := exists_end_of_evaluate h hE hw
  obtain ⟨henter, hrun₁, -, -⟩ := atEnd_of_runSteps hc₁
  obtain ⟨-, hrun₂, -, -⟩ := atEnd_of_runSteps hc₂
  obtain ⟨first, second, hs₁, hs₂, hrun⟩ :=
    runSteps_append [] hrun₁ hrun₂ (u := e.opening (ds ++ es)) rfl rfl
  have hc := (runSteps_of_enter henter (ds ++ es)).trans hrun
  have hb : (c₂.current.stack ++ c₁.current.stack).getLast? = some v := by
    rw [List.getLast?_append, hb₁, Option.some_or]
  -- Neither stack is empty, so that together they hold more than one value.
  have hlength : (c₂.current.stack ++ c₁.current.stack).length ≠ 1 := by
    have h₁ := List.length_pos_of_mem (List.mem_of_getLast? hb₁)
    have h₂ := List.length_pos_of_mem (List.mem_of_getLast? hb₂)
    rw [List.length_append]
    omega
  obtain ⟨houtcome, hsteps', hwarnings', hevents'⟩ := evaluate_of_leftovers h hDE hc hb hlength
  obtain ⟨hsteps₁, hwarnings₁, hevents₁⟩ := addTo_opening first e ds
  obtain ⟨hsteps₂, hwarnings₂, hevents₂⟩ := addTo_opening second e es
  obtain ⟨hsteps, hwarnings, hevents⟩ := addTo_opening first e (ds ++ es)
  rw [← hs₁] at hsteps₁ hwarnings₁ hevents₁
  rw [← hs₂] at hsteps₂ hwarnings₂ hevents₂
  refine ⟨c₁, c₂, _, hc₁, hc₂, hc, hb₁, rfl, houtcome, ?_, ?_, ?_⟩
  · rw [hsteps', hD', hE']
    show (first.addTo (e.opening (ds ++ es))).steps + second.steps = t₁.steps + t₂.steps
    rw [hsteps, Config.steps_of_ending ht₁, Config.steps_of_ending ht₂, hsteps₁, hsteps₂]
  · rw [hwarnings', hwarnings₁, hwarnings₂]
    show (first.addTo (e.opening (ds ++ es))).warnings ++ second.warnings ++ _ = _
    rw [hwarnings]
  · rw [hevents', hevents₁, hevents₂, hsteps₁]
    show (first.addTo (e.opening (ds ++ es))).tracer.events ++ second.events.map _ ++ _ = _
    rw [hevents, hsteps]

/-- A derivation whose steps fail does so with whatever steps behind them, and
    with the same count, warnings and trace. -/
theorem evaluate_append_of_error (h : e.shell.inFlight = false) (hD : D.items? = .ok ds)
    (hDE : DE.items? = .ok (ds ++ es)) {failure : Failure} {t : Session Event}
    (hr : e.runSteps ds = .halted (.error failure) t) :
    (e.evaluate DE).outcome = .error failure ∧ (e.evaluate D).outcome = .error failure ∧
      (e.evaluate DE).after = (e.evaluate D).after := by
  obtain ⟨houtcome, hafter⟩ := evaluate_of_runSteps h hD
  rw [hr, Next.run] at houtcome hafter
  suffices ∃ t', e.runSteps (ds ++ es) = .halted (.error failure) t' ∧ t'.finish = t.finish by
    obtain ⟨t', hr', ht⟩ := this
    obtain ⟨houtcome', hafter'⟩ := evaluate_of_runSteps h hDE
    rw [hr', Next.run] at houtcome' hafter'
    exact ⟨houtcome', houtcome, by rw [hafter, hafter', ht]⟩
  rw [Evaluator.runSteps] at hr ⊢
  cases henter : enter e.limit 0 with
  | error f =>
    rw [henter] at hr
    cases hr
    exact ⟨_, rfl, rfl⟩
  | ok _ =>
    rw [henter] at hr
    have hr' : Stack.runSteps e.limit ([] : List Pending).length ⟨.start ds, [], e.opening ds⟩ =
        _ := hr
    have hsteps : (e.opening (ds ++ es)).steps = (e.opening ds).steps := rfl
    obtain ⟨log, rfl, hrun⟩ := runSteps_before hr' es hsteps rfl (admitAlike_of_debug rfl _)
    exact ⟨_, hrun, rfl⟩

end Evaluator

/-- Derivations compose. Steps that come to their end on an empty stack come to
    it on top of any operands, whatever was applied before, wherever they are as
    deep and in any session that is debugged alike; they leave the same on top and add the
    same log. So derivations that have values have one together, that of the first, with
    one more warning, if what both leave has a text; if not, this warning fails. And
    nothing that comes after steps that fail makes a difference. -/
theorem derivations_compose (e : Evaluator) (ds : List Value) :
    (∀ (outer : List Pending) (s : Session Event) (c : Config),
      runSteps e.limit outer.length ⟨.start ds, outer, s⟩ = .running c →
      ∀ (below : List Value) (last : Option Primitive) (outer' : List Pending)
        (s' : Session Event), outer'.length = outer.length → s'.tracer.debug = s.tracer.debug →
        ∃ log : Log, c.session = log.addTo s ∧
          runSteps e.limit outer'.length ⟨⟨ds, below, last⟩, outer', s'⟩ =
            .running ⟨⟨[], c.current.stack ++ below, c.current.last.or last⟩, outer',
              log.addTo s'⟩) ∧
    ∀ (D DE : Value) (es : List Value), e.shell.inFlight = false →
      D.items? = .ok ds → DE.items? = .ok (ds ++ es) →
      (∀ (E v w : Value), E.items? = .ok es → (e.evaluate D).outcome = .ok v →
        (e.evaluate E).outcome = .ok w →
        ∃ c₁ c₂ c, e.runSteps ds = .running c₁ ∧ e.runSteps es = .running c₂ ∧
          e.runSteps (ds ++ es) = .running c ∧
          c₁.current.stack.getLast? = some v ∧
          c.current.stack = c₂.current.stack ++ c₁.current.stack ∧
          (e.evaluate DE).outcome =
            (if Value.areShowable c.current.stack then .ok v else .error (.fault .tooManyDigits)) ∧
          (e.evaluate DE).after.shell.steps =
            (e.evaluate D).after.shell.steps + (e.evaluate E).after.shell.steps ∧
          (e.evaluate DE).after.shell.warnings =
            c₁.session.warnings ++ c₂.session.warnings ++ c.leftovers ∧
          (e.evaluate DE).after.shell.tracer.events =
            c₁.session.tracer.events ++
              c₂.session.tracer.events.map (Event.shift c₁.session.steps) ++
              c.leftovers.map fun message => ⟨c.session.steps, .warned message⟩) ∧
      ∀ (failure : Failure) (t : Session Event), e.runSteps ds = .halted (.error failure) t →
        (e.evaluate DE).outcome = .error failure ∧ (e.evaluate D).outcome = .error failure ∧
          (e.evaluate DE).after = (e.evaluate D).after := by
  refine ⟨?_, fun D DE es h hD hDE => ⟨?_, ?_⟩⟩
  · intro outer s c hc below last outer' s' hl hdebug
    exact runSteps_beneath hc below last hl hdebug
  · intro E v w hE hv hw
    exact Evaluator.evaluate_append_of_ok h hD hE hDE hv hw
  · intro failure t hr
    exact Evaluator.evaluate_append_of_error h hD hDE hr

/-- Six, and a seven on top of it. -/
def product : List Value :=
  [.literal (.int 2), .literal (.int 3), .literal (.str "multiply"), .morphism .apply,
    .literal (.int 7)]

/-- A conditional whose branch leaves more than its value. -/
def branch : List Value :=
  [.literal (.bool true), .sub [.literal (.int 4), .literal (.int 5)], .literal (.int 0),
    .morphism .cond]

theorem runSteps_product (limit : Value) :
    ∃ t, runSteps limit 0 ⟨.start product, [], (Evaluator.new .null limit).opening product⟩ =
      .running ⟨⟨[], [.int 7, .int 6], some .multiply⟩, [], t⟩ :=
  ⟨_, (runSteps_eq_advance limit 0 5 _).trans (runSteps_of_atEnd limit ⟨rfl, rfl⟩)⟩

theorem runSteps_branch : ∃ t, runSteps (.int 5) 0
      ⟨.start branch, [], (Evaluator.new .null (.int 5)).opening branch⟩ =
    .running ⟨⟨[], [.int 4], none⟩, [], t⟩ := by
  have hoperands : ∃ t, t.tracer.debug = false ∧ runSteps (.int 5) 0
        ⟨.start branch, [], (Evaluator.new .null (.int 5)).opening branch⟩ =
      runSteps (.int 5) 0 ⟨⟨[.morphism .cond],
        [.int 0, .sub [.literal (.int 4), .literal (.int 5)], .bool true], none⟩, [], t⟩ :=
    ⟨_, rfl, runSteps_eq_advance _ 0 3 _⟩
  obtain ⟨⟨⟨source, debug, events⟩, count, warnings, lines⟩, rfl, hrun⟩ := hoperands
  rw [hrun, runSteps_of_entered rfl (enter_int_eq_ok.2 (by decide))]
  exact ⟨_, (runSteps_eq_advance _ 0 3 _).trans (runSteps_of_atEnd _ ⟨rfl, rfl⟩)⟩

/-- An application of what is no primitive. -/
def misapplied : List Value := [.literal (.int 1), .morphism .apply]

/-- The branch leaves its value on top of a name as well, behind the product it
    leaves the value of the product, and behind a failure it is not seen. -/
theorem derivations_compose_of_branch :
    (∃ t, runSteps (.int 5) 0
        ⟨⟨branch, [.str "multiply"], some .subtract⟩, [],
          (Evaluator.new .null .null).opening branch⟩ =
      .running ⟨⟨[], [.int 4, .str "multiply"], some .subtract⟩, [], t⟩) ∧
    ((Evaluator.new .null (.int 5)).evaluate (.list (product ++ branch))).outcome = .ok (.int 6) ∧
    ((Evaluator.new .null (.int 5)).evaluate (.list (misapplied ++ branch))).outcome =
      .error (.evaluation (.notAPrimitive (.int 1))) := by
  have henter : enter (Evaluator.new .null (.int 5)).limit 0 = .ok () :=
    enter_int_eq_ok.2 (by decide)
  obtain ⟨t, hbranch⟩ := runSteps_branch
  obtain ⟨u, hproduct⟩ := runSteps_product (.int 5)
  refine ⟨?_, ?_, ?_⟩
  · obtain ⟨log, -, hrun⟩ := (derivations_compose (.new .null (.int 5)) branch).1 [] _ _ hbranch
      [.str "multiply"] (some .subtract) [] ((Evaluator.new .null .null).opening branch) rfl rfl
    exact ⟨_, hrun⟩
  · have hproduct := (Evaluator.runSteps_of_enter henter product).trans hproduct
    have hbranch := (Evaluator.runSteps_of_enter henter branch).trans hbranch
    have hv : ((Evaluator.new .null (.int 5)).evaluate (.list product)).outcome = .ok (.int 6) :=
      (Evaluator.evaluate_of_end rfl rfl hproduct rfl rfl).1
    have hw : ((Evaluator.new .null (.int 5)).evaluate (.list branch)).outcome = .ok (.int 4) :=
      (Evaluator.evaluate_of_end rfl rfl hbranch rfl rfl).1
    obtain ⟨c₁, c₂, c, hc₁, hc₂, -, -, hstack, houtcome, -⟩ :=
      ((derivations_compose (.new .null (.int 5)) product).2 (.list product)
        (.list (product ++ branch)) branch rfl rfl rfl).1 (.list branch) _ _ rfl hv hw
    cases hc₁.symm.trans hproduct
    cases hc₂.symm.trans hbranch
    rw [hstack] at houtcome
    exact houtcome
  · have hfails := (Evaluator.runSteps_of_enter henter misapplied).trans
      (runSteps_eq_advance _ 0 2 _)
    exact (((derivations_compose (.new .null (.int 5)) misapplied).2 (.list misapplied)
      (.list (misapplied ++ branch)) branch rfl rfl rfl).2 _ _ hfails).1

/-- Of a square that has no text and a one each has a value, but not both together. -/
theorem compose_of_huge :
    ((Evaluator.new .null .null).evaluate (.list square)).outcome = .ok .huge ∧
      ((Evaluator.new .null .null).evaluate (.list [.literal (.int 1)])).outcome = .ok (.int 1) ∧
      ((Evaluator.new .null .null).evaluate (.list (square ++ [.literal (.int 1)]))).outcome =
        .error (.fault .tooManyDigits) := by
  have henter : enter (Evaluator.new .null .null).limit 0 = .ok () :=
    enter_int_eq_ok.2 (by decide)
  obtain ⟨t, -, -, -, hsquare⟩ := runSteps_square (s := (Evaluator.new .null .null).opening square)
    rfl [] [] none []
  have hsquare := (Evaluator.runSteps_of_enter henter square).trans
    (hsquare.trans (runSteps_of_atEnd _ ⟨rfl, rfl⟩))
  have hone := (Evaluator.runSteps_of_enter henter [.literal (.int 1)]).trans
    ((runSteps_eq_advance _ 0 1 _).trans (runSteps_of_atEnd _ ⟨rfl, rfl⟩))
  have hv : ((Evaluator.new .null .null).evaluate (.list square)).outcome = .ok .huge :=
    (Evaluator.evaluate_of_end rfl rfl hsquare rfl rfl).1
  have hw : ((Evaluator.new .null .null).evaluate (.list [.literal (.int 1)])).outcome =
      .ok (.int 1) := (Evaluator.evaluate_of_end rfl rfl hone rfl rfl).1
  obtain ⟨c₁, c₂, c, hc₁, hc₂, -, -, hstack, houtcome, -⟩ :=
    Evaluator.evaluate_append_of_ok rfl rfl rfl
      (rfl : (Value.list (square ++ [.literal (.int 1)])).items? = .ok _) hv hw
  cases hc₁.symm.trans hsquare
  cases hc₂.symm.trans hone
  have hshown (above : List Value) : Value.areShowable (above ++ [.huge]) = false :=
    Value.areShowable_of_huge_mem (List.mem_append_right above List.mem_cons_self)
  rw [hstack, hshown] at houtcome
  exact ⟨hv, hw, houtcome⟩

end Heptad.Stack
