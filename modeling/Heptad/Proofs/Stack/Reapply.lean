import Heptad.Proofs.Stack.Composition
import Heptad.Proofs.Stack.Recount

/-!
# Applying a primitive once more

An application that finds no name on top of the stack applies the primitive that was
applied latest. It could as well be named again: the name is taken off before the
operands are looked at, so that both applications find the same operands, fail for the
same reasons and leave the same stack. All that is left of the name is that it was a
step to push it.

* `reapply_next`: the two applications side by side;
* `recounted_reapply`: and the loops of the derivations they are in;
* `reapply_by_name`: so these derivations end alike, as branches and as calls.
-/

namespace Heptad

/-- A primitive is found under its name. -/
theorem Primitive.ofName?_name (p : Primitive) : ofName? p.name = some p := by
  cases p <;> decide

namespace Stack

variable {limit : Value} {n : Nat} {top : Value} {below : List Value} {q : Primitive}
  {outer : List Pending} {s s' : Session Event} {c : Config} {steps : List Value}

/-- An application looks at what it finds on the stack, and not at where it was found. -/
theorem next_apply {stack operands : List Value} {last : Option Primitive} {implicit : Bool}
    (ht : target stack last = .ok (q, implicit, operands)) (limit : Value) (rest : List Value)
    (outer : List Pending) (s : Session Event) :
    Config.next limit ⟨⟨.morphism .apply :: rest, stack, last⟩, outer, s⟩ =
      if operands.length < q.arity then
        .halted (.error (EvalError.missingOperands q.name q.arity operands.length).raised) s.tick
      else
        match q.call s.tick.callback (Config.arguments q operands) with
        | .error cause =>
          .halted (.error
            (EvalError.primitiveFailed q.name (Config.arguments q operands) cause).raised) s.tick
        | .ok result =>
          Config.proceed ⟨⟨.morphism .apply :: rest, stack, last⟩, outer, s.tick⟩
            ⟨rest, result :: operands.drop q.arity, some q⟩
            (.applied q (Config.arguments q operands) result implicit outer.length) := by
  rw [Config.next_of_cons rfl, Config.execute, Config.apply, Config.ticked]
  dsimp only
  rw [ht]
  rfl

/-- Where the latest primitive is to be applied once more, its name on top makes no
    difference. -/
theorem reapply_next (htop : ∀ name, top ≠ .str name) (hs : Recounted n s s') (limit : Value)
    (rest : List Value) (outer : List Pending) :
    Next.Recounted n
      (Config.next limit ⟨⟨.morphism .apply :: rest, top :: below, some q⟩, outer, s⟩)
      (Config.next limit
        ⟨⟨.morphism .apply :: rest, .str q.name :: top :: below, some q⟩, outer, s'⟩) := by
  have hbare : target (top :: below) (some q) = .ok (q, true, top :: below) :=
    target_eq_ok_iff.2 (.again htop)
  have hnamed : target (.str q.name :: top :: below) (some q) = .ok (q, false, top :: below) :=
    target_eq_ok_iff.2 (.named q.ofName?_name)
  rw [next_apply hbare, next_apply hnamed, hs.tick.callback_eq]
  split
  · exact .halted (.failure (.refl _)) hs.tick
  · split
    · exact .halted (.failure (.refl _)) hs.tick
    · exact hs.tick.proceed rfl

/-- The loops of two derivations come to the same end that go on in these two ways
    from where the steps of both of them lead. The second one has counted a step more. -/
theorem recounted_reapply (h : loop limit outer steps s = .running c)
    (hstack : c.current.stack = top :: below) (htop : ∀ name, top ≠ .str name)
    (hlast : c.current.last = some q) (rest : List Value) {t t' : Session Event}
    (hs : Recounted 0 t t') (hdebug : t.tracer.debug = s.tracer.debug) :
    Next.Recounted 1 (loop limit outer (steps ++ .morphism .apply :: rest) t)
      (loop limit outer
        (steps ++ .literal (.str q.name) :: .morphism .apply :: rest) t') := by
  obtain ⟨log, -, happend⟩ := exists_loop_append h
  rw [happend outer _ t rfl hdebug, happend outer _ t' rfl (hs.debug.trans hdebug), hstack, hlast]
  -- The name is pushed first, which can be described; from then on the two stand side by side.
  have hname : (log.addTo t').tracer.admits
      ⟨(log.addTo t').steps, .pushed (.str q.name) outer.length⟩ = true :=
    Tracer.admits_of_showable rfl
  have hcounted := (hs.addTo log).succ
    ⟨(log.addTo t').tick.steps, .pushed (.str q.name) outer.length⟩
  rw [runSteps_of_pushes (.literal (.str q.name)) hname,
    runSteps_eq_next (fun he => List.cons_ne_nil _ _ he.1),
    runSteps_eq_next (fun he => List.cons_ne_nil _ _ he.1)]
  exact (reapply_next htop hcounted limit rest outer).runSteps limit outer.length

/-- A bare application of the primitive applied latest means the same as naming it again.
    Wherever the loop of a derivation comes to a stack whose top is no text, and at any
    depth, the two ways to go on end alike, whatever steps follow: they return the same
    value with the same warnings, or fail for reasons of the same kind and code. Naming
    the primitive counts one step more. For calls of an evaluator it is the same. -/
theorem reapply_by_name :
    (∀ (limit : Value) (outer : List Pending) (s : Session Event) (p r : List Value) (c : Config)
      (top : Value) (below : List Value) (q : Primitive),
      loop limit outer p s = .running c → c.current.stack = top :: below →
      (∀ name, top ≠ .str name) → c.current.last = some q →
      let bare := (loop limit outer (p ++ .morphism .apply :: r) s).result
      let named :=
        (loop limit outer (p ++ .literal (.str q.name) :: .morphism .apply :: r) s).result
      SameEnd (bare.1, bare.2.warnings) (named.1, named.2.warnings) ∧
        named.2.steps = bare.2.steps + 1) ∧
    ∀ (e : Evaluator) (D D' : Value) (p r : List Value) (c : Config) (top : Value)
      (below : List Value) (q : Primitive), e.shell.inFlight = false →
      D.items? = .ok (p ++ .morphism .apply :: r) →
      D'.items? = .ok (p ++ .literal (.str q.name) :: .morphism .apply :: r) →
      e.runSteps p = .running c → c.current.stack = top :: below →
      (∀ name, top ≠ .str name) → c.current.last = some q →
      SameEnd ((e.evaluate D).outcome, (e.evaluate D).after.shell.warnings)
          ((e.evaluate D').outcome, (e.evaluate D').after.shell.warnings) ∧
        (e.evaluate D').after.shell.steps = (e.evaluate D).after.shell.steps + 1 := by
  refine ⟨?_, ?_⟩
  · intro limit outer s p r c top below q h hstack htop hlast
    exact (recounted_reapply h hstack htop hlast r (.refl s) rfl).sameEnd
  · intro e D D' p r c top below q hfree hD hD' h hstack htop hlast
    rw [Evaluator.runSteps_eq_loop] at h
    have hopening : Recounted 0 (e.opening (p ++ .morphism .apply :: r))
        (e.opening (p ++ .literal (.str q.name) :: .morphism .apply :: r)) := ⟨rfl, rfl, rfl, rfl⟩
    obtain ⟨houtcome, hafter⟩ := Evaluator.evaluate_of_loop hfree hD
    obtain ⟨houtcome', hafter'⟩ := Evaluator.evaluate_of_loop hfree hD'
    rw [houtcome, hafter, houtcome', hafter']
    exact (recounted_reapply h hstack htop hlast r hopening rfl).sameEnd

/-- The loop of a product, with one more value left on top of it. -/
theorem loop_product {limit : Value} (outer : List Pending)
    (h : enter limit outer.length = .ok ()) (s : Session Event) :
    ∃ t, loop limit outer product s =
      .running ⟨⟨[], [.int 7, .int 6], some .multiply⟩, outer, t⟩ := by
  suffices ∃ t, runSteps limit outer.length ⟨.start product, outer, s⟩ = .running ⟨_, outer, t⟩ by
    rwa [loop_of_enter h]
  obtain ⟨⟨source, debug, events⟩, steps, warnings, lines⟩ := s
  -- All five steps can be described, so debugging makes no difference.
  cases debug with
  | false | true =>
    exact ⟨_, (runSteps_eq_advance limit outer.length 5 _).trans
      (runSteps_of_atEnd limit ⟨rfl, rfl⟩)⟩

/-- One level deep, before something that is no step, and in a call, before another
    application that lacks an operand. -/
theorem reapply_by_name_of_product :
    (loop (.int 1) [⟨.start [], true⟩]
        (product ++ [.literal (.str "multiply"), .morphism .apply, .null])
        ((Evaluator.new .null .null).opening product)).result.2.steps =
      (loop (.int 1) [⟨.start [], true⟩] (product ++ [.morphism .apply, .null])
        ((Evaluator.new .null .null).opening product)).result.2.steps + 1 ∧
    ((Evaluator.new .null (.int 0)).evaluate (.list (product ++
        [.literal (.str "multiply"), .morphism .apply, .morphism .apply]))).after.shell.steps =
      ((Evaluator.new .null (.int 0)).evaluate (.list (product ++
        [.morphism .apply, .morphism .apply]))).after.shell.steps + 1 := by
  obtain ⟨hloops, hcalls⟩ := reapply_by_name
  have hname : Primitive.multiply.name = "multiply" := rfl
  have hone : enter (.int 1) 1 = .ok () := enter_int_eq_ok.2 (by decide)
  have hzero : enter (.int 0) 0 = .ok () := enter_int_eq_ok.2 (by decide)
  obtain ⟨t, ht⟩ := loop_product [⟨.start [], true⟩] hone
    ((Evaluator.new .null .null).opening product)
  obtain ⟨u, hu⟩ := loop_product [] hzero ((Evaluator.new .null (.int 0)).opening product)
  refine ⟨?_, ?_⟩
  · have h := hloops (.int 1) _ _ product [.null] _ (.int 7) [.int 6] .multiply ht rfl nofun rfl
    rw [hname] at h
    exact h.2
  · have h := hcalls (.new .null (.int 0)) (.list _) (.list _) product [.morphism .apply] _ (.int 7)
      [.int 6] .multiply rfl rfl rfl ((Evaluator.runSteps_eq_loop _ _).trans hu) rfl nofun rfl
    rw [hname] at h
    exact h.2

end Stack

end Heptad
