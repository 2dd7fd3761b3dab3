import Heptad.Proofs.Stack.Result
import Heptad.Proofs.Stack.Steps

/-!
# Running a derivation in another place

A derivation does not look beyond itself. Whatever operands lie beneath its own,
whatever steps come after its own, whichever derivations wait for it and whatever
was recorded before: where it runs without failing, it runs in the same way.

Two runs of the same steps are followed side by side. One of them is on a stack
of its own; in the other the derivation stands *onto* another frame, whose steps
come after its own and whose operands lie beneath. Both add the same *log* to
their sessions.

* `Alongside.next`, `Alongside.next_halted`: side by side the machine takes the
  same transitions;
* `runSteps_onto`: so the steps that end in one place end in the other, with the
  same stack on top of the operands beneath;
* `runSteps_before`: and a failure is the same, whatever steps come after it.
-/

namespace Heptad.Stack

/-! ## Logs -/

/-- An event, recorded after `n` steps more. -/
def Event.shift (n : Nat) (e : Event) : Event := ⟨n + e.step, e.action⟩

theorem Event.shift_zero (e : Event) : e.shift 0 = e := by
  rw [shift, Nat.zero_add]

theorem Event.shift_injective (n : Nat) : Function.Injective (Event.shift n) := by
  rintro ⟨i, action⟩ ⟨j, action'⟩ h
  have hstep : n + i = n + j := congrArg Event.step h
  have haction : action = action' := congrArg Event.action h
  rw [Nat.add_left_cancel hstep, haction]

/-- What a part of a run adds to a session: steps, warnings and events. The events
    are numbered as in a session without steps. -/
structure Log where
  steps : Nat
  warnings : List String
  events : List Event

namespace Log

/-- Nothing added. -/
def empty : Log := ⟨0, [], []⟩

/-- One more step begun. -/
def tick (l : Log) : Log := { l with steps := l.steps + 1 }

/-- One more transition on record. -/
def record (l : Log) (action : Action) : Log :=
  { l with events := l.events ++ [⟨l.steps, action⟩] }

/-- One more warning, which is on record as well. -/
def warn (l : Log) (message : String) : Log :=
  { l with warnings := l.warnings ++ [message] }.record (.warned message)

/-- A session with a log added. -/
def addTo (l : Log) (s : Session Event) : Session Event where
  tracer := { s.tracer with events := s.tracer.events ++ l.events.map (Event.shift s.steps) }
  steps := s.steps + l.steps
  warnings := s.warnings ++ l.warnings
  lines := s.lines ++
    (l.events.map (Event.shift s.steps)).flatMap s.tracer.eventLines

variable (l : Log) (s : Session Event)

@[simp] theorem empty_addTo : empty.addTo s = s := by
  simp [addTo, empty]

@[simp] theorem tick_addTo : l.tick.addTo s = (l.addTo s).tick := rfl

@[simp] theorem record_addTo (action : Action) :
    (l.record action).addTo s = (l.addTo s).record ⟨(l.addTo s).steps, action⟩ := by
  simp only [addTo, record, List.map_append, List.flatMap_append, ← List.append_assoc]
  rw [List.map_singleton, List.flatMap_singleton]
  rfl

@[simp] theorem warn_addTo (message : String) :
    (l.warn message).addTo s =
      (l.addTo s).warn message ⟨(l.addTo s).steps, .warned message⟩ := by
  rw [warn, record_addTo, Session.warn]
  simp only [addTo, ← List.append_assoc]

/-- What was added to a session can be told from the session it led to. -/
theorem addTo_injective (s : Session Event) :
    Function.Injective fun log : Log => log.addTo s := by
  rintro ⟨steps, warnings, events⟩ ⟨steps', warnings', events'⟩ h
  have hsteps : s.steps + steps = s.steps + steps' := congrArg Session.steps h
  have hwarnings : s.warnings ++ warnings = s.warnings ++ warnings' := congrArg Session.warnings h
  have hevents : s.tracer.events ++ events.map (Event.shift s.steps) =
      s.tracer.events ++ events'.map (Event.shift s.steps) :=
    congrArg (fun s => s.tracer.events) h
  rw [Nat.add_left_cancel hsteps, List.append_cancel_left hwarnings,
    List.map_injective_iff.2 (Event.shift_injective s.steps) (List.append_cancel_left hevents)]

end Log

/-! ## Frames onto frames -/

namespace Frame

/-- A derivation in front of another: its steps come first and its operands are
    on top. -/
def onto (f k : Frame) : Frame := ⟨f.rest ++ k.rest, f.stack ++ k.stack, f.last.or k.last⟩

@[simp] theorem rest_onto (f k : Frame) : (f.onto k).rest = f.rest ++ k.rest := rfl

@[simp] theorem stack_onto (f k : Frame) : (f.onto k).stack = f.stack ++ k.stack := rfl

@[simp] theorem last_onto (f k : Frame) : (f.onto k).last = f.last.or k.last := rfl

@[simp] theorem onto_start (f : Frame) : f.onto (start []) = f := by
  simp [onto, start]

end Frame

/-- What an application finds on a stack it finds on top of other operands. -/
theorem Targets.append {stack operands : List Value} {last : Option Primitive} {p : Primitive}
    {implicit : Bool} (h : Targets stack last p implicit operands) (below : List Value)
    (q : Option Primitive) :
    Targets (stack ++ below) (last.or q) p implicit (operands ++ below) := by
  cases h with
  | named h => exact .named h
  | again h => exact .again h

theorem arguments_append {p : Primitive} {operands : List Value}
    (h : p.arity ≤ operands.length) (below : List Value) :
    Config.arguments p (operands ++ below) = Config.arguments p operands := by
  rw [Config.arguments, List.take_append_of_le_length h, Config.arguments]

section Rules

/-- For what reason a step fails depends on the stack, the latest primitive, the
    depth, the count of steps and the answer to operands that call back. -/
theorem Config.Fails.congr {limit : Value} {c c' : Config} {step : Value} {failure : Failure}
    (h : Fails limit c step failure) (hstack : c'.current.stack = c.current.stack)
    (hlast : c'.current.last = c.current.last) (hdepth : c'.depth = c.depth)
    (hsteps : c'.session.steps = c.session.steps)
    (hcallback : c'.session.callback = c.session.callback) : Fails limit c' step failure := by
  cases h with
  | target ht => exact .target (by rw [hstack, hlast, ht])
  | operands ht hl => exact .operands (by rw [hstack, hlast, ht]) hl
  | primitive ht hl hc => exact .primitive (by rw [hstack, hlast, ht]) hl (by rw [hcallback, hc])
  | condOperands hl =>
    rw [← hstack] at hl ⊢
    exact .condOperands hl
  | nesting hs hv he => exact .nesting (hstack.trans hs) hv (by rw [hdepth, he])
  | notAStep hs =>
    rw [← hsteps]
    exact .notAStep hs

/-! ### The rules onto a frame

A configuration `c'` whose current frame is that of `c` onto `k`, equally deep,
follows the rules that `c` does. -/

variable {limit : Value} {k : Frame} {c c' : Config} {rest : List Value}

theorem rest_of_onto {step : Value} (hf : c'.current = c.current.onto k)
    (hr : c.current.rest = step :: rest) : c'.current.rest = step :: (rest ++ k.rest) := by
  rw [hf, Frame.rest_onto, hr, List.cons_append]

theorem stack_of_onto {e t b : Value} {below : List Value} (hf : c'.current = c.current.onto k)
    (hs : c.current.stack = e :: t :: b :: below) :
    c'.current.stack = e :: t :: b :: (below ++ k.stack) := by
  rw [hf, Frame.stack_onto, hs, List.cons_append, List.cons_append, List.cons_append]

theorem applied_onto {operands : List Value} {p : Primitive} {implicit : Bool} {result : Value}
    (hf : c'.current = c.current.onto k) (hd : c'.depth = c.depth)
    (hr : c.current.rest = .morphism .apply :: rest)
    (ht : target c.current.stack c.current.last = .ok (p, implicit, operands))
    (ha : p.arity ≤ operands.length)
    (hc : p.call c.ticked.session.callback (Config.arguments p operands) = .ok result) :
    Config.Moves c' c'.ticked (Frame.onto ⟨rest, result :: operands.drop p.arity, some p⟩ k)
      (.applied p (Config.arguments p operands) result implicit c.depth) := by
  have ht' : target c'.current.stack c'.current.last = .ok (p, implicit, operands ++ k.stack) := by
    rw [hf]
    exact target_eq_ok_iff.2 ((target_eq_ok_iff.1 ht).append k.stack k.last)
  have ha' : p.arity ≤ (operands ++ k.stack).length := by
    rw [List.length_append]
    exact Nat.le_add_right_of_le ha
  have hc' : p.call c'.ticked.session.callback (Config.arguments p (operands ++ k.stack)) =
      .ok result := by
    rw [arguments_append ha]
    exact call_eq_ok_iff.2 (call_eq_ok_iff.1 hc)
  have h : Config.Moves c' _ _ _ := .applied (rest_of_onto hf hr) ht' ha' hc'
  rw [arguments_append ha, List.drop_append_of_le_length ha, hd] at h
  exact h

/-- A derivation that has steps left moves on in the same way. -/
theorem moves_onto {step : Value} {d : Config} {frame : Frame} {action : Action}
    (hf : c'.current = c.current.onto k) (hd : c'.depth = c.depth)
    (hr : c.current.rest = step :: rest) (h : Config.Moves c d frame action) :
    d = c.ticked ∧ Config.Moves c' c'.ticked (frame.onto k) action := by
  cases h with
  | pushed hr hp =>
    have h : Config.Moves c' _ _ _ := .pushed (rest_of_onto hf hr) hp
    rw [hf, hd] at h
    exact ⟨rfl, h⟩
  | applied hr ht ha hc => exact ⟨rfl, applied_onto hf hd hr ht ha hc⟩
  | decided hr hs hv =>
    have h : Config.Moves c' _ _ _ := .decided (rest_of_onto hf hr) (stack_of_onto hf hs) hv
    rw [hf, hd] at h
    exact ⟨rfl, h⟩
  | returned hnil => cases hr.symm.trans hnil

theorem entered_onto {e t b : Value} {below steps : List Value}
    (hf : c'.current = c.current.onto k) (hd : c'.depth = c.depth)
    (hr : c.current.rest = .morphism .cond :: rest)
    (hs : c.current.stack = e :: t :: b :: below) (hv : chosen b t e = .sub steps)
    (he : enter limit (c.depth + 1) = .ok ()) :
    Config.Transition limit c'
      (.running ⟨.start steps, ⟨Frame.onto ⟨rest, below, c.current.last⟩ k, b.truthy⟩ :: c'.callers,
        c'.ticked.session⟩) := by
  rw [← hd] at he
  have h : Config.Transition limit c' _ :=
    .entered (rest_of_onto hf hr) (stack_of_onto hf hs) hv he
  rw [hf] at h
  exact h

end Rules

/-! ## Two places -/

/-- The frames of two configurations that are inside one derivation, which has
    no others around it but `outer` in the first and stands onto `k`, with `outer'`
    around it, in the second. Derivations inside of it are the same. -/
inductive Lifted (k : Frame) (outer outer' : List Pending) :
    Frame → List Pending → Frame → List Pending → Prop
  | base (f : Frame) : Lifted k outer outer' f outer (f.onto k) outer'
  | nested {f : Frame} {p q : Pending} {callers callers' : List Pending} :
      Lifted k outer outer' p.frame callers q.frame callers' → q.condition = p.condition →
      Lifted k outer outer' f (p :: callers) f (q :: callers')

variable {k : Frame} {outer outer' : List Pending}

namespace Lifted

variable {f g : Frame} {callers callers' : List Pending}

/-- The current frame stands onto `k`, or onto nothing; and whatever becomes of
    it does so too. -/
theorem exists_onto (h : Lifted k outer outer' f callers g callers') :
    ∃ k', (k' = k ∨ k' = .start []) ∧ g = f.onto k' ∧
      ∀ f', Lifted k outer outer' f' callers (f'.onto k') callers' := by
  cases h with
  | base => exact ⟨k, .inl rfl, rfl, .base⟩
  | nested h hc =>
    refine ⟨.start [], .inr rfl, f.onto_start.symm, fun f' => ?_⟩
    rw [f'.onto_start]
    exact .nested h hc

theorem length_callers (h : Lifted k outer outer' f callers g callers')
    (hl : outer'.length = outer.length) : callers'.length = callers.length := by
  induction h with
  | base => exact hl
  | nested _ _ ih => exact congrArg Nat.succ ih

/-- The current derivation is at least as deep as the whole. -/
theorem length_outer_le (h : Lifted k outer outer' f callers g callers') :
    outer.length ≤ callers.length := by
  induction h with
  | base => exact Nat.le_refl _
  | nested _ _ ih => exact Nat.le_succ_of_le ih

/-- If the current derivation is as deep as the whole, its frame is that of the whole. -/
theorem eq_of_length (h : Lifted k outer outer' f callers g callers')
    (hd : callers.length = outer.length) : g = f.onto k ∧ callers = outer ∧ callers' = outer' := by
  cases h with
  | base => exact ⟨rfl, rfl, rfl⟩
  | nested h _ => exact absurd hd (Nat.ne_of_gt (Nat.lt_succ_of_le h.length_outer_le))

/-- Deeper than the whole, the current frames are the same, and so are those that
    wait for them, up to the places of the whole. -/
theorem exists_caller (h : Lifted k outer outer' f callers g callers')
    (hd : callers.length ≠ outer.length) :
    g = f ∧ ∃ p q rest rest', callers = p :: rest ∧ callers' = q :: rest' ∧
      q.condition = p.condition ∧ Lifted k outer outer' p.frame rest q.frame rest' := by
  cases h with
  | base => exact absurd rfl hd
  | nested h hc => exact ⟨rfl, _, _, _, _, rfl, rfl, hc, h⟩

end Lifted

/-- Two sessions record the same events without failing. -/
def AdmitAlike (s s' : Session Event) (events : List Event) : Prop :=
  ∀ e ∈ events, s'.tracer.admits e = s.tracer.admits e

/-- Sessions that are debugged alike do. -/
theorem admitAlike_of_debug {s s' : Session Event} (h : s'.tracer.debug = s.tracer.debug)
    (events : List Event) : AdmitAlike s s' events := fun e _ => by
  rw [Tracer.admits, Tracer.admits, h]

theorem AdmitAlike.mono {s s' : Session Event} {events more : List Event}
    (h : AdmitAlike s s' more) (hkept : events <+: more) : AdmitAlike s s' events :=
  fun e he => h e (hkept.subset he)

/-- Sessions `t` and `t'` in which the same was added to `s` and to `s'`. -/
def Paired (s s' t t' : Session Event) : Prop := ∃ log : Log, t = log.addTo s ∧ t' = log.addTo s'

namespace Paired

variable {s s' t t' : Session Event}

theorem refl (s s' : Session Event) : Paired s s' s s' :=
  ⟨.empty, (Log.empty_addTo s).symm, (Log.empty_addTo s').symm⟩

theorem tick (h : Paired s s' t t') : Paired s s' t.tick t'.tick := by
  obtain ⟨log, rfl, rfl⟩ := h
  exact ⟨log.tick, rfl, rfl⟩

theorem record (h : Paired s s' t t') (action : Action) :
    Paired s s' (t.record ⟨t.steps, action⟩) (t'.record ⟨t'.steps, action⟩) := by
  obtain ⟨log, rfl, rfl⟩ := h
  exact ⟨log.record action, (log.record_addTo s action).symm, (log.record_addTo s' action).symm⟩

theorem warn (h : Paired s s' t t') (message : String) :
    Paired s s' (t.warn message ⟨t.steps, .warned message⟩)
      (t'.warn message ⟨t'.steps, .warned message⟩) := by
  obtain ⟨log, rfl, rfl⟩ := h
  exact ⟨log.warn message, (log.warn_addTo s message).symm, (log.warn_addTo s' message).symm⟩

theorem steps_eq (h : Paired s s' t t') (hs : s'.steps = s.steps) : t'.steps = t.steps := by
  obtain ⟨log, rfl, rfl⟩ := h
  exact congrArg (· + log.steps) hs

theorem callback_eq (h : Paired s s' t t') (hs : s'.tracer.source = s.tracer.source) :
    t'.callback = t.callback := by
  obtain ⟨log, rfl, rfl⟩ := h
  funext steps
  exact congrArg (fun source => Except.error (EvalError.inFlight source)) hs

/-- What was added makes no difference to what is recorded without failing. -/
theorem admits_eq (h : Paired s s' t t') {e e' : Event} (he : e'.action = e.action)
    (halike : s'.tracer.admits e = s.tracer.admits e) :
    t'.tracer.admits e' = t.tracer.admits e := by
  obtain ⟨log, rfl, rfl⟩ := h
  have hshowable : e'.isShowable = e.isShowable := congrArg Action.isShowable he
  exact (congrArg (!s'.tracer.debug || ·) hshowable).trans halike

/-- The warning at the end of a derivation depends on its stack only. -/
theorem ending {c c' : Config} (h : Paired s s' c.session c'.session)
    (hs : c'.current.stack = c.current.stack) (hending : c.ending = .ok t) :
    ∃ t', c'.ending = .ok t' ∧ Paired s s' t t' := by
  rcases Config.endings_of_stack hs with ⟨he, he'⟩ | ⟨message, he, he'⟩ | ⟨he, -⟩ <;>
    cases hending.symm.trans he
  · exact ⟨_, he', h⟩
  · exact ⟨_, he', h.warn message⟩

end Paired

/-- Whether the warning can be put together depends on nothing else either. -/
theorem ending_eq_error_of_stack {c c' : Config} {failure : Failure}
    (hs : c'.current.stack = c.current.stack) (h : c.ending = .error failure) :
    c'.ending = .error failure := by
  rcases Config.endings_of_stack hs with ⟨he, -⟩ | ⟨_, he, -⟩ | ⟨he, he'⟩ <;> cases h.symm.trans he
  exact he'

/-- Two runs of one derivation side by side: in the same configuration, up to
    the places it is run in, and with the same added to `s` and to `s'`. -/
structure Alongside (k : Frame) (outer outer' : List Pending) (s s' : Session Event)
    (c c' : Config) : Prop where
  frames : Lifted k outer outer' c.current c.callers c'.current c'.callers
  sessions : Paired s s' c.session c'.session

namespace Alongside

variable {limit : Value} {s s' : Session Event} {c c' d : Config}

/-- Side by side, the second run is at the end of the derivation only if the
    first one is. -/
theorem not_atEnd (h : Alongside k outer outer' s s' c c') (hl : outer'.length = outer.length)
    (he : ¬ c.AtEnd outer.length) : ¬ c'.AtEnd outer.length := by
  rintro ⟨hr, hd⟩
  obtain ⟨k', -, hg, -⟩ := h.frames.exists_onto
  refine he ⟨?_, (h.frames.length_callers hl).symm.trans hd⟩
  rw [hg, Frame.rest_onto] at hr
  exact (List.append_eq_nil_iff.1 hr).1

/-- Before the end of the derivation, the second run moves on when the first one does. -/
theorem moves (h : Alongside k outer outer' s s' c c') (hl : outer'.length = outer.length)
    (he : ¬ c.AtEnd outer.length) {frame : Frame} {action : Action}
    (hm : Config.Moves c d frame action) :
    ∃ d' frame', Config.Moves c' d' frame' action ∧ Paired s s' d.session d'.session ∧
      Lifted k outer outer' frame d.callers frame' d'.callers := by
  obtain ⟨k', -, hf, hlift⟩ := h.frames.exists_onto
  have hd : c'.depth = c.depth := h.frames.length_callers hl
  cases hr : c.current.rest with
  | cons step rest =>
    obtain ⟨rfl, hm'⟩ := moves_onto hf hd hr hm
    exact ⟨_, _, hm', h.sessions.tick, hlift _⟩
  | nil =>
    cases hm with
    | pushed hr' | applied hr' | decided hr' => cases hr.symm.trans hr'
    | @returned p callers v session _ hv hc hending =>
      -- The derivation that returns is inside the one followed, so it is the same in both places.
      obtain ⟨hg, p', q, rest, rest', hp, hq, hcond, hframes⟩ :=
        h.frames.exists_caller fun hlength => he ⟨hr, hlength⟩
      obtain ⟨rfl, rfl⟩ := List.cons.inj (hc.symm.trans hp)
      obtain ⟨k'', -, hqf, hlift'⟩ := hframes.exists_onto
      obtain ⟨session', hending', hsession⟩ := h.sessions.ending (congrArg Frame.stack hg) hending
      rw [← hg] at hr hv
      have hnext : Config.Moves _ _ _ _ := .returned hr hv hq hending'
      rw [hcond, hqf, hframes.length_callers hl] at hnext
      exact ⟨_, _, hnext, hsession, hlift' ⟨p.frame.rest, v :: p.frame.stack, p.frame.last⟩⟩

/-- Before the end of the derivation, a transition of the first run is one of the
    second. -/
theorem next (h : Alongside k outer outer' s s' c c') (hl : outer'.length = outer.length)
    (he : ¬ c.AtEnd outer.length) (ht : Config.Transition limit c (.running d))
    (halike : AdmitAlike s s' d.session.tracer.events) :
    ∃ d', Config.Transition limit c' (.running d') ∧ Alongside k outer outer' s s' d d' := by
  cases ht with
  | @moved d frame action hm ha =>
    obtain ⟨d', frame', hm', hsession, hframes⟩ := h.moves hl he hm
    have ha' := hsession.admits_eq rfl (halike _ (List.mem_concat_self))
    exact ⟨_, .moved hm' (ha'.trans ha), hframes, hsession.record action⟩
  | entered hr hs hv henter =>
    obtain ⟨k', -, hf, hlift⟩ := h.frames.exists_onto
    have hd : c'.depth = c.depth := h.frames.length_callers hl
    exact ⟨_, entered_onto hf hd hr hs hv henter, .nested (hlift _) rfl, h.sessions.tick⟩

/-- Before the end of the derivation, if no operands lie beneath, the second run
    fails when the first one does, for the same reason. -/
theorem next_halted {outcome : Except Failure Value} {t : Session Event}
    (h : Alongside k outer outer' s s' c c') (hl : outer'.length = outer.length)
    (he : ¬ c.AtEnd outer.length) (hk : k.stack = [] ∧ k.last = none)
    (hsteps : s'.steps = s.steps) (hsource : s'.tracer.source = s.tracer.source)
    (ht : Config.Transition limit c (.halted outcome t))
    (halike : AdmitAlike s s' t.tracer.events) :
    ∃ t', Config.Transition limit c' (.halted outcome t') ∧ Paired s s' t t' := by
  cases ht with
  | @undescribed d frame action hm ha =>
    obtain ⟨d', frame', hm', hsession, -⟩ := h.moves hl he hm
    have ha' := hsession.admits_eq rfl (halike _ (List.mem_concat_self))
    exact ⟨_, .undescribed hm' (ha'.trans ha), hsession.record action⟩
  | @failed step rest failure hr hfail =>
    obtain ⟨k', hk', hf, -⟩ := h.frames.exists_onto
    have hk₀ : k'.stack = [] ∧ k'.last = none := by
      rcases hk' with rfl | rfl
      · exact hk
      · exact ⟨rfl, rfl⟩
    have hstack : c'.current.stack = c.current.stack := by
      rw [hf, Frame.stack_onto, hk₀.1, List.append_nil]
    have hlast : c'.current.last = c.current.last := by
      rw [hf, Frame.last_onto, hk₀.2, Option.or_none]
    refine ⟨_, .failed (rest_of_onto hf hr)
      (hfail.congr hstack hlast (h.frames.length_callers hl) ?_ ?_), h.sessions.tick⟩
    · exact h.sessions.tick.steps_eq hsteps
    · exact h.sessions.tick.callback_eq hsource
  | finished hr hv hc =>
    -- A derivation that ends a run is not inside another one.
    by_cases hlength : c.callers.length = outer.length
    · exact absurd ⟨hr, hlength⟩ he
    · obtain ⟨-, p, -, rest, -, hp, -⟩ := h.frames.exists_caller hlength
      rw [hc] at hp
      cases hp
  | unwarned hr hv hending =>
    obtain ⟨hg, -⟩ := h.frames.exists_caller fun hlength => he ⟨hr, hlength⟩
    have hending' := ending_eq_error_of_stack (congrArg Frame.stack hg) hending
    rw [← hg] at hr hv
    exact ⟨_, .unwarned hr hv hending', h.sessions⟩
  | emptied hr hs =>
    obtain ⟨hg, -⟩ := h.frames.exists_caller fun hlength => he ⟨hr, hlength⟩
    rw [← hg] at hr hs
    exact ⟨_, .emptied hr hs, h.sessions⟩

/-- Side by side, a transition before the end of the derivation is one in both places, if
    all that is recorded until this end is admitted alike. -/
theorem running (h : Alongside k outer outer' s s' c c') (hl : outer'.length = outer.length)
    (he : ¬ c.AtEnd outer.length) (hn : c.next limit = .running d)
    (halike : AdmitAlike s s' (Stack.runSteps limit outer.length d).session.tracer.events) :
    ∃ d', Stack.runSteps limit outer.length c' = Stack.runSteps limit outer.length d' ∧
      Alongside k outer outer' s s' d d' := by
  obtain ⟨d', hn', hd⟩ := h.next hl he (Config.next_eq_iff.1 hn)
    (halike.mono (events_runSteps limit outer.length d))
  exact ⟨d', runSteps_of_running (h.not_atEnd hl he) (Config.next_of_transition hn'), hd⟩

/-- Side by side, the steps of the derivation come to their end in both places. -/
theorem runSteps (h : Alongside k outer outer' s s' c c') (hl : outer'.length = outer.length)
    (hr : Stack.runSteps limit outer.length c = .running d)
    (halike : AdmitAlike s s' d.session.tracer.events) :
    ∃ d', Stack.runSteps limit outer.length c' = Stack.runSteps limit outer.length d' ∧
      Alongside k outer outer' s s' d d' := by
  induction c using runSteps.induct limit outer.length generalizing c' with
  | case1 c he =>
    rw [runSteps_of_atEnd limit he] at hr
    cases hr
    exact ⟨c', rfl, h⟩
  | case2 c he outcome t hn =>
    rw [runSteps_of_halted he hn] at hr
    cases hr
  | case3 c he c₁ hn ih =>
    rw [runSteps_of_running he hn] at hr
    obtain ⟨c₁', hc₁', h₁⟩ := h.running hl he hn (by rw [hr]; exact halike)
    obtain ⟨d', hd', h'⟩ := ih h₁ hr
    exact ⟨d', hc₁'.trans hd', h'⟩

/-- Side by side, if no operands lie beneath, a failure in the first place is one
    in the second. -/
theorem runSteps_halted {outcome : Except Failure Value} {t : Session Event}
    (h : Alongside k outer outer' s s' c c') (hl : outer'.length = outer.length)
    (hk : k.stack = [] ∧ k.last = none) (hsteps : s'.steps = s.steps)
    (hsource : s'.tracer.source = s.tracer.source)
    (hr : Stack.runSteps limit outer.length c = .halted outcome t)
    (halike : AdmitAlike s s' t.tracer.events) :
    ∃ t', Stack.runSteps limit outer.length c' = .halted outcome t' ∧ Paired s s' t t' := by
  induction c using runSteps.induct limit outer.length generalizing c' with
  | case1 c he =>
    rw [runSteps_of_atEnd limit he] at hr
    cases hr
  | case2 c he outcome t hn =>
    rw [runSteps_of_halted he hn] at hr
    cases hr
    obtain ⟨t', hn', hs⟩ :=
      h.next_halted hl he hk hsteps hsource (Config.next_eq_iff.1 hn) halike
    exact ⟨t', runSteps_of_halted (h.not_atEnd hl he) (Config.next_of_transition hn'), hs⟩
  | case3 c he c₁ hn ih =>
    rw [runSteps_of_running he hn] at hr
    obtain ⟨c₁', hc₁', h₁⟩ := h.running hl he hn (by rw [hr]; exact halike)
    obtain ⟨t', ht', hs⟩ := ih h₁ hr
    exact ⟨t', hc₁'.trans ht', hs⟩

end Alongside

/-! ## The frame law -/

variable {limit : Value} {f : Frame} {s s' : Session Event} {c : Config}

/-- Steps that come to their end on a stack of their own do so onto any frame,
    below any derivations and in any session that records the same events: what they end
    in then stands onto the frame, and the same is added to the session. -/
theorem runSteps_onto (h : runSteps limit outer.length ⟨f, outer, s⟩ = .running c) (k : Frame)
    (hl : outer'.length = outer.length) (halike : AdmitAlike s s' c.session.tracer.events) :
    c.current.rest = [] ∧ c.callers = outer ∧ ∃ log : Log, c.session = log.addTo s ∧
      runSteps limit outer'.length ⟨f.onto k, outer', s'⟩ =
        runSteps limit outer'.length ⟨c.current.onto k, outer', log.addTo s'⟩ := by
  have hstart : Alongside k outer outer' s s' ⟨f, outer, s⟩ ⟨f.onto k, outer', s'⟩ :=
    ⟨.base f, .refl s s'⟩
  obtain ⟨c', hrun, hc⟩ := hstart.runSteps hl h halike
  obtain ⟨hr, hd⟩ := atEnd_of_runSteps h
  obtain ⟨log, hs, hs'⟩ := hc.sessions
  obtain ⟨hcurrent, houter, houter'⟩ := hc.frames.eq_of_length hd
  obtain rfl : c' = ⟨c.current.onto k, outer', log.addTo s'⟩ := by
    rw [← hcurrent, ← houter', ← hs']
  rw [hl]
  exact ⟨hr, houter, log, hs, hrun⟩

/-- A failure among steps that have no operands beneath them is the same whatever
    steps come after them. -/
theorem runSteps_before {outcome : Except Failure Value} {t : Session Event}
    (h : runSteps limit outer.length ⟨f, outer, s⟩ = .halted outcome t) (steps : List Value)
    (hsteps : s'.steps = s.steps) (hsource : s'.tracer.source = s.tracer.source)
    (halike : AdmitAlike s s' t.tracer.events) :
    ∃ log : Log, t = log.addTo s ∧
      runSteps limit outer.length ⟨f.onto (.start steps), outer, s'⟩ =
        .halted outcome (log.addTo s') := by
  have hstart : Alongside (.start steps) outer outer s s' ⟨f, outer, s⟩
      ⟨f.onto (.start steps), outer, s'⟩ := ⟨.base f, .refl s s'⟩
  obtain ⟨t', hrun, log, ht, rfl⟩ :=
    hstart.runSteps_halted rfl ⟨rfl, rfl⟩ hsteps hsource h halike
  exact ⟨log, ht, hrun⟩

end Heptad.Stack
