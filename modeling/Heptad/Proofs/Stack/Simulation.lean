import Heptad.Proofs.Stack.Depth
import Heptad.Proofs.Stack.Recount

/-!
# Derivations that go on alike

Two derivations whose frames are related go on in the same way, if what the machine does
to a frame keeps them related. It does not matter what waits for them as long as the
second one is nowhere deeper than the first, nor how many steps were counted before.

* `Simulates`: the relations that the machine keeps;
* `Within`, `InStep`: configurations inside of two derivations whose frames are related;
* `InStep.moves`, `InStep.next`: a transition of the first is one of the second;
* `runSteps_of_simulates`: so steps that come to their end in the first one do so in the
  second.
-/

namespace Heptad.Stack

/-- A relation between frames that is kept by what the machine does to them. -/
structure Simulates (R : Frame → Frame → Prop) : Prop where
  /-- A value is pushed on both. -/
  push {f g : Frame} (v : Value) : R f g →
    R ⟨f.rest, v :: f.stack, f.last⟩ ⟨g.rest, v :: g.stack, g.last⟩
  /-- The next step is the same, and it is taken off both. -/
  step {f g : Frame} {step : Value} {rest : List Value} : R f g → f.rest = step :: rest →
    ∃ rest', g.rest = step :: rest' ∧ R ⟨rest, f.stack, f.last⟩ ⟨rest', g.stack, g.last⟩
  /-- An application finds the same primitive and the same operands, which are taken off
      both. -/
  apply {f g : Frame} {rest operands : List Value} {p : Primitive} {implicit : Bool} : R f g →
    f.rest = .morphism .apply :: rest → target f.stack f.last = .ok (p, implicit, operands) →
    p.arity ≤ operands.length →
    ∃ operands', target g.stack g.last = .ok (p, implicit, operands') ∧
      p.arity ≤ operands'.length ∧ Config.arguments p operands' = Config.arguments p operands ∧
      R ⟨f.rest, operands.drop p.arity, some p⟩ ⟨g.rest, operands'.drop p.arity, some p⟩
  /-- A conditional finds the same operands, which are taken off both. -/
  cond {f g : Frame} {e t b : Value} {below : List Value} : R f g →
    f.stack = e :: t :: b :: below →
    ∃ below', g.stack = e :: t :: b :: below' ∧ R ⟨f.rest, below, f.last⟩ ⟨g.rest, below', g.last⟩

/-- Frames that are the same stay so. -/
theorem simulates_eq : Simulates (· = ·) where
  push v h := by rw [h]
  step h hr := ⟨_, h ▸ hr, by rw [h]⟩
  apply h hr ht ha := ⟨_, h ▸ ht, ha, rfl, by rw [h]⟩
  cond h hs := ⟨_, h ▸ hs, by rw [h]⟩

variable {R : Frame → Frame → Prop} {outer outer' : List Pending}

/-- The frames of two configurations that are inside of two derivations with related
    frames, the first one with `outer` around it and the second one with `outer'`.
    Derivations inside of them are the same. -/
inductive Within (R : Frame → Frame → Prop) (outer outer' : List Pending) :
    Frame → List Pending → Frame → List Pending → Prop
  | base {f g : Frame} : R f g → Within R outer outer' f outer g outer'
  | nested {f : Frame} {p q : Pending} {callers callers' : List Pending} :
      Within R outer outer' p.frame callers q.frame callers' → q.condition = p.condition →
      Within R outer outer' f (p :: callers) f (q :: callers')

namespace Within

variable {f g : Frame} {callers callers' : List Pending}

/-- The current frames are related in a way that is kept; and whatever becomes of them
    while they are is within the derivations too. -/
theorem exists_simulates (hR : Simulates R) (h : Within R outer outer' f callers g callers') :
    ∃ S, Simulates S ∧ S f g ∧
      ∀ {f' g' : Frame}, S f' g' → Within R outer outer' f' callers g' callers' := by
  cases h with
  | base h => exact ⟨R, hR, h, .base⟩
  | nested h hc =>
    refine ⟨_, simulates_eq, rfl, ?_⟩
    rintro f' _ rfl
    exact .nested h hc

/-- The second one is nowhere deeper. -/
theorem length_callers_le (h : Within R outer outer' f callers g callers')
    (hl : outer'.length ≤ outer.length) : callers'.length ≤ callers.length := by
  induction h with
  | base => exact hl
  | nested _ _ ih => exact Nat.succ_le_succ ih

theorem length_outer_le (h : Within R outer outer' f callers g callers') :
    outer.length ≤ callers.length ∧ outer'.length ≤ callers'.length := by
  induction h with
  | base => exact ⟨Nat.le_refl _, Nat.le_refl _⟩
  | nested _ _ ih => exact ⟨Nat.le_succ_of_le ih.1, Nat.le_succ_of_le ih.2⟩

/-- As deep as the whole, the current frames are those of the whole. -/
theorem of_length (h : Within R outer outer' f callers g callers')
    (hd : callers.length = outer.length) : R f g ∧ callers = outer ∧ callers' = outer' := by
  cases h with
  | base h => exact ⟨h, rfl, rfl⟩
  | nested h _ => exact absurd hd (Nat.ne_of_gt (Nat.lt_succ_of_le h.length_outer_le.1))

/-- Deeper than the whole, the current frames are the same, and something waits for them. -/
theorem exists_caller (h : Within R outer outer' f callers g callers')
    (hd : callers.length ≠ outer.length) :
    g = f ∧ ∃ p q rest rest', callers = p :: rest ∧ callers' = q :: rest' ∧
      q.condition = p.condition ∧ Within R outer outer' p.frame rest q.frame rest' := by
  cases h with
  | base => exact absurd rfl hd
  | nested h hc => exact ⟨rfl, _, _, _, _, rfl, rfl, hc, h⟩

end Within

/-- Two configurations that are within derivations with related frames, in sessions that
    differ in the count of steps and the record. The first one has counted `n` steps
    more. -/
structure InStep (R : Frame → Frame → Prop) (outer outer' : List Pending) (n : Nat)
    (c c' : Config) : Prop where
  frames : Within R outer outer' c.current c.callers c'.current c'.callers
  sessions : Recounted n c'.session c.session

namespace InStep

variable {limit : Value} {n : Nat} {c c' d : Config}

/-- The second one is at its end only if the first one is. -/
theorem not_atEnd (hR : Simulates R) (h : InStep R outer outer' n c c')
    (he : ¬ c.AtEnd outer.length) : ¬ c'.AtEnd outer'.length := by
  rintro ⟨hr, hd⟩
  have hrest : c.current.rest = [] := by
    obtain ⟨S, hS, hfg, -⟩ := h.frames.exists_simulates hR
    cases hcons : c.current.rest with
    | nil => rfl
    | cons step rest =>
      obtain ⟨rest', hrest', -⟩ := hS.step hfg hcons
      cases hr.symm.trans hrest'
  obtain ⟨-, p, q, rest, rest', -, hq, -, hcaller⟩ :=
    h.frames.exists_caller fun hlength => he ⟨hrest, hlength⟩
  -- What waits for the second one is inside of the derivation, so this is deeper.
  rw [Config.depth, hq] at hd
  exact absurd hd (Nat.ne_of_gt (Nat.lt_succ_of_le hcaller.length_outer_le.2))

/-- Before the end of the first one, the second one moves on as the first one does. What
    they put on record differs at most in the depth. -/
theorem moves (hR : Simulates R) (h : InStep R outer outer' n c c') (he : ¬ c.AtEnd outer.length)
    {frame : Frame} {action : Action} (hm : Config.Moves c d frame action) :
    ∃ d' frame' action', Config.Moves c' d' frame' action' ∧
      action'.isShowable = action.isShowable ∧
      Within R outer outer' frame d.callers frame' d'.callers ∧
      Recounted n d'.session d.session := by
  obtain ⟨S, hS, hfg, hwithin⟩ := h.frames.exists_simulates hR
  have hs := h.sessions.tick
  cases hm with
  | pushed hr hp =>
    obtain ⟨rest', hr', hrest⟩ := hS.step hfg hr
    exact ⟨_, _, _, .pushed hr' hp, hp.isShowable_eq _ _, hwithin (hS.push _ hrest), hs⟩
  | applied hr ht ha hc =>
    obtain ⟨operands', ht', ha', harguments, hdrop⟩ := hS.apply hfg hr ht ha
    obtain ⟨rest', hr', hrest⟩ := hS.step hdrop hr
    have hc' := hc
    rw [Config.ticked, hs.callback_eq, ← harguments] at hc'
    refine ⟨_, _, _, .applied hr' ht' ha' hc', ?_, hwithin (hS.push _ hrest), hs⟩
    rw [harguments]
    rfl
  | decided hr hstack hv =>
    obtain ⟨below', hstack', hbelow⟩ := hS.cond hfg hstack
    obtain ⟨rest', hr', hrest⟩ := hS.step hbelow hr
    exact ⟨_, _, _, .decided hr' hstack' hv, rfl, hwithin (hS.push _ hrest), hs⟩
  | @returned p callers v session hr hv hc hending =>
    -- The derivation that returns is inside of the whole, so it is the same in both.
    obtain ⟨hg, p', q, rest, rest', hp, hq, hcond, hcaller⟩ :=
      h.frames.exists_caller fun hlength => he ⟨hr, hlength⟩
    obtain ⟨rfl, rfl⟩ := List.cons.inj (hc.symm.trans hp)
    obtain ⟨T, hT, hpq, hwithin'⟩ := hcaller.exists_simulates hR
    obtain ⟨session', hending', hsessions⟩ :=
      h.sessions.ending_left (congrArg Frame.stack hg.symm) hending
    rw [← hg] at hr hv
    exact ⟨_, _, _, .returned hr hv hq hending', rfl, hwithin' (hT.push v hpq), hsessions⟩

/-- Before the end of the first one, its transitions are transitions of the second. -/
theorem next (hR : Simulates R) (hl : outer'.length ≤ outer.length)
    (h : InStep R outer outer' n c c') (he : ¬ c.AtEnd outer.length)
    (ht : Config.Transition limit c (.running d)) :
    ∃ d', Config.Transition limit c' (.running d') ∧ InStep R outer outer' n d d' := by
  cases ht with
  | @moved e frame action hm ha =>
    obtain ⟨e', frame', action', hm', hshowable, hframes, hs⟩ := h.moves hR he hm
    have hadmits : e.session.tracer.admits (e.event action) =
      e'.session.tracer.admits (e'.event action') := hs.admits_eq hshowable.symm
    exact ⟨_, .moved hm' (hadmits.symm.trans ha), hframes, hs.record _ _⟩
  | entered hr hstack hv henter =>
    obtain ⟨S, hS, hfg, hwithin⟩ := h.frames.exists_simulates hR
    obtain ⟨below', hstack', hbelow⟩ := hS.cond hfg hstack
    obtain ⟨rest', hr', hrest⟩ := hS.step hbelow hr
    have henter' := enter_of_le (Nat.succ_le_succ (h.frames.length_callers_le hl)) henter
    exact ⟨_, .entered hr' hstack' hv henter', .nested (hwithin hrest) rfl, h.sessions.tick⟩

/-- The steps of the first come to their end in the second as well. -/
theorem runSteps (hR : Simulates R) (hl : outer'.length ≤ outer.length)
    (h : InStep R outer outer' n c c')
    (hr : Stack.runSteps limit outer.length c = .running d) :
    ∃ d', Stack.runSteps limit outer'.length c' = Stack.runSteps limit outer'.length d' ∧
      InStep R outer outer' n d d' := by
  induction c using runSteps.induct limit outer.length generalizing c' with
  | case1 c he =>
    rw [runSteps_of_atEnd limit he] at hr
    cases hr
    exact ⟨c', rfl, h⟩
  | case2 c he outcome t hn =>
    rw [runSteps_of_halted he hn] at hr
    cases hr
  | case3 c he c₁ hn ih =>
    rw [runSteps_of_running he hn] at hr
    obtain ⟨c₁', hn', h₁⟩ := h.next hR hl he (Config.next_eq_iff.1 hn)
    obtain ⟨d', hd', h'⟩ := ih h₁ hr
    refine ⟨d', ?_, h'⟩
    rw [runSteps_of_running (h.not_atEnd hR he) (Config.next_of_transition hn'), hd']

end InStep

/-- Steps that come to their end lead a derivation with a related frame to a related end,
    if it is nowhere deeper. -/
theorem runSteps_of_simulates {limit : Value} {n : Nat} {f g : Frame} {s s' : Session Event}
    {d : Config} (hR : Simulates R) (hl : outer'.length ≤ outer.length) (h : R f g)
    (hs : Recounted n s' s) (hr : runSteps limit outer.length ⟨f, outer, s⟩ = .running d) :
    ∃ g' t', R d.current g' ∧ Recounted n t' d.session ∧
      runSteps limit outer'.length ⟨g, outer', s'⟩ =
        runSteps limit outer'.length ⟨g', outer', t'⟩ := by
  have hstart : InStep R outer outer' n ⟨f, outer, s⟩ ⟨g, outer', s'⟩ := ⟨.base h, hs⟩
  obtain ⟨⟨g', callers', t'⟩, hrun, hend⟩ := hstart.runSteps hR hl hr
  obtain ⟨hg, -, rfl⟩ := hend.frames.of_length (atEnd_of_runSteps hr).2
  exact ⟨g', t', hg, hend.sessions, hrun⟩

end Heptad.Stack
