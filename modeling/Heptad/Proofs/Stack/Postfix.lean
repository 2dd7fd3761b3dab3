import Mathlib.Data.List.OfFn
import Heptad.Proofs.Outcome
import Heptad.Proofs.Stack.Memoryless

/-!
# Postfix code

Expressions of literals, calls of primitives and conditionals, with two
readings. The *value* of an expression is computed directly, from the values of
its parts: arguments from left to right, and of the two branches only the one
the condition chooses. Its *code* is a derivation: the code of the arguments,
the name of the primitive and an application, or the code of the condition, the
codes of the branches as sub-derivations and a conditional.

* `reaches_code`: run on top of any stack, in any derivation in progress, the
  code of an expression pushes its value and nothing else, or fails as it does;
* `evaluate_code`: so the evaluator gives the value of an expression for its
  code, without a warning, if its limit allows for the nesting of the branches.
-/

namespace Heptad.Stack

/-! ## Expressions -/

/-- An expression. The arguments of a call are as many as the primitive takes. -/
inductive Expr where
  | literal (v : Value)
  | call (p : Primitive) (args : Fin p.arity → Expr)
  | cond (condition thenBranch elseBranch : Expr)

/-- A call of a primitive that failed. -/
structure CallFailure where
  primitive : Primitive
  args : List Value
  cause : Failure

/-- A failed call as the reason for which an evaluation fails. -/
def CallFailure.reason (f : CallFailure) : EvalError :=
  .primitiveFailed f.primitive.name f.args f.cause

namespace Expr

/-- The value of an expression, given the answer to operands that call back. -/
def value (callback : Value.Callback) : Expr → Except CallFailure Value
  | literal v => .ok v
  | call p args => do
    let vs ← (List.ofFn fun i => (args i).value callback).mapM id
    (p.call callback vs).mapError fun cause => ⟨p, vs, cause⟩
  | cond condition thenBranch elseBranch => do
    let b ← condition.value callback
    if b.truthy then thenBranch.value callback else elseBranch.value callback

/-- The code of an expression. -/
def code : Expr → List Value
  | literal v => [.literal v]
  | call p args =>
    (List.ofFn fun i => (args i).code).flatten ++ [.literal (.str p.name), .morphism .apply]
  | cond condition thenBranch elseBranch =>
    condition.code ++ [.sub thenBranch.code, .sub elseBranch.code, .morphism .cond]

/-- How deep the branches of an expression are nested. -/
def nesting : Expr → Nat
  | literal _ => 0
  | call _ args => (List.ofFn fun i => (args i).nesting).foldr max 0
  | cond condition thenBranch elseBranch =>
    max condition.nesting (max thenBranch.nesting elseBranch.nesting + 1)

end Expr

/-! ## Running code -/

/-- A session in which no warning was added, of the same evaluator. -/
structure Quiet (s t : Session Event) : Prop where
  warnings : t.warnings = s.warnings
  source : t.tracer.source = s.tracer.source
  debug : t.tracer.debug = s.tracer.debug

theorem Quiet.refl (s : Session Event) : Quiet s s := ⟨rfl, rfl, rfl⟩

theorem Quiet.trans {s t u : Session Event} (h : Quiet s t) (h' : Quiet t u) : Quiet s u :=
  ⟨h'.warnings.trans h.warnings, h'.source.trans h.source, h'.debug.trans h.debug⟩

theorem Quiet.tick (s : Session Event) : Quiet s s.tick := ⟨rfl, rfl, rfl⟩

/-- Operands that call back get the same answer. -/
theorem Quiet.callback {s t : Session Event} (h : Quiet s t) : t.callback = s.callback := by
  funext
  rw [Session.callback, h.source, Session.callback]

theorem quiet_record (s : Session Event) (e : Event) : Quiet s (s.tick.record e) :=
  ⟨rfl, rfl, rfl⟩

/-- From `c` the machine comes to the steps `rest` with the values of a list
    pushed onto `below`, the first of them first, or it fails for a reason. -/
def Reaches (limit : Value) (c : Config) (below rest : List Value) :
    Except CallFailure (List Value) → Prop
  | .ok vs => ∃ last session, Quiet c.session session ∧
      run limit c = run limit ⟨⟨rest, vs.reverse ++ below, last⟩, c.callers, session⟩
  | .error f => ∃ session, Quiet c.session session ∧
      run limit c = (.error f.reason.raised, session)

variable {limit : Value} {c c' : Config} {below rest : List Value} {v : Value}
  {r : Except CallFailure (List Value)}

/-- A configuration reaches whatever the one it comes to reaches. -/
theorem Reaches.of_run (h : Reaches limit c' below rest r) (hrun : run limit c = run limit c')
    (hq : Quiet c.session c'.session) (hc : c'.callers = c.callers) :
    Reaches limit c below rest r := by
  cases r with
  | error f =>
    obtain ⟨session, hq', h⟩ := h
    exact ⟨session, hq.trans hq', hrun.trans h⟩
  | ok vs =>
    obtain ⟨last, session, hq', h⟩ := h
    rw [hc] at h
    exact ⟨last, session, hq.trans hq', hrun.trans h⟩

/-- What is on top of the stack before counts as pushed first. -/
theorem Reaches.cons (h : Reaches limit c (v :: below) rest r) :
    Reaches limit c below rest (r.map (v :: ·)) := by
  cases r with
  | error f => exact h
  | ok vs =>
    obtain ⟨last, session, hq, h⟩ := h
    refine ⟨last, session, hq, h.trans ?_⟩
    rw [List.reverse_cons, List.append_assoc]
    rfl

/-- A step that pushes brings the machine to the steps behind it. -/
theorem run_of_pushes (limit : Value) (hoff : c.session.tracer.debug = false) {step : Value}
    {action : Nat → Action} (hr : c.current.rest = step :: rest) (hp : Pushes step v action) :
    ∃ session, Quiet c.session session ∧
      run limit c = run limit ⟨⟨rest, v :: c.current.stack, c.current.last⟩, c.callers, session⟩ :=
  ⟨_, quiet_record _ _, run_of_running
    (Config.next_of_transition (.moved (.pushed hr hp) (Tracer.admits_of_off hoff _)))⟩

/-- With the name of a primitive and its operands on the stack, an application
    calls it. -/
theorem reaches_apply (limit : Value) (hoff : c.session.tracer.debug = false) {vs : List Value}
    {p : Primitive} (hr : c.current.rest = .morphism .apply :: rest)
    (hs : c.current.stack = .str p.name :: (vs.reverse ++ below)) (hl : vs.length = p.arity) :
    Reaches limit c below rest
      (((p.call c.session.callback vs).mapError fun cause => ⟨p, vs, cause⟩).map ([·])) := by
  have hname : Primitive.ofName? p.name = some p := by cases p <;> decide
  have hlen : vs.reverse.length = p.arity := List.length_reverse.trans hl
  have ht : target c.current.stack c.current.last = .ok (p, false, vs.reverse ++ below) := by
    rw [hs, target, hname]
  have ha : p.arity ≤ (vs.reverse ++ below).length := by
    rw [List.length_append, hlen]
    exact Nat.le_add_right _ _
  have hargs : Config.arguments p (vs.reverse ++ below) = vs := by
    rw [Config.arguments, List.take_left' hlen, List.reverse_reverse]
  have hcall : p.call c.ticked.session.callback (Config.arguments p (vs.reverse ++ below)) =
      p.call c.session.callback vs := by
    rw [hargs]
    rfl
  cases hp : p.call c.session.callback vs with
  | ok result =>
    have happly : Config.Moves c _ _ _ := .applied hr ht ha (hcall.trans hp)
    rw [List.drop_left' hlen] at happly
    exact ⟨_, _, quiet_record _ _, run_of_running
      (Config.next_of_transition (.moved happly (Tracer.admits_of_off hoff _)))⟩
  | error cause =>
    have happly : Config.Transition limit c _ := .failed hr (.primitive ht ha (hcall.trans hp))
    rw [hargs] at happly
    exact ⟨c.session.tick, .tick _, run_of_halted (Config.next_of_transition happly)⟩

/-- Of two sub-derivations in the place of branches, the chosen one is entered. -/
theorem run_of_branches (hoff : c.session.tracer.debug = false) {t e : List Value} {b : Value}
    (hr : c.current.rest = .sub t :: .sub e :: .morphism .cond :: rest)
    (hs : c.current.stack = b :: below) (hd : enter limit (c.depth + 1) = .ok ()) :
    ∃ session, Quiet c.session session ∧
      run limit c = run limit ⟨.start (if b.truthy then t else e),
        ⟨⟨rest, below, c.current.last⟩, b.truthy⟩ :: c.callers, session⟩ := by
  obtain ⟨session, hq, hrun⟩ := run_of_pushes limit hoff hr (.sub t)
  obtain ⟨session', hq', hrun'⟩ := run_of_pushes limit
    (c := ⟨⟨.sub e :: .morphism .cond :: rest, .sub t :: c.current.stack, c.current.last⟩,
      c.callers, session⟩) (hq.debug.trans hoff) rfl (.sub e)
  have hchosen : chosen b (.sub t) (.sub e) = .sub (if b.truthy then t else e) := by
    rw [chosen]
    split <;> rfl
  have henter : Config.Transition limit
      ⟨⟨.morphism .cond :: rest, .sub e :: .sub t :: c.current.stack, c.current.last⟩,
        c.callers, session'⟩ _ :=
    .entered rfl (congrArg (fun s => Value.sub e :: .sub t :: s) hs) hchosen hd
  exact ⟨session'.tick, (hq.trans hq').trans (.tick _),
    hrun.trans (hrun'.trans (run_of_running (Config.next_of_transition henter)))⟩

/-- A branch that ends with a single value gives it to its conditional. -/
theorem run_of_single (limit v : Value) (p : Pending) (callers : List Pending)
    (last : Option Primitive) {session : Session Event} (hoff : session.tracer.debug = false) :
    ∃ session', Quiet session session' ∧
      run limit ⟨⟨[], [v], last⟩, p :: callers, session⟩ =
        run limit ⟨⟨p.frame.rest, v :: p.frame.stack, p.frame.last⟩, callers, session'⟩ :=
  ⟨session.record ⟨session.steps, .decided p.condition true v callers.length⟩, ⟨rfl, rfl, rfl⟩,
    run_of_running (Config.next_of_transition
      (.moved (.returned rfl rfl rfl rfl) (Tracer.admits_of_off hoff _)))⟩

namespace Expr

/-! ## Code and value -/

/-- Without debugging, wherever there is room for its branches, the code of an expression
    runs as its value says. -/
def RunsAsValue (limit : Value) (e : Expr) : Prop :=
  ∀ (c : Config) (rest : List Value), c.session.tracer.debug = false →
    c.current.rest = e.code ++ rest →
    (∀ depth ≤ c.depth + e.nesting, enter limit depth = .ok ()) →
    Reaches limit c c.current.stack rest ((e.value c.session.callback).map ([·]))

/-- The codes of several expressions push their values in order, up to the first
    that fails. -/
theorem reaches_operands {es : List Expr} (hes : ∀ e ∈ es, e.RunsAsValue limit) (c : Config)
    (rest : List Value) (hoff : c.session.tracer.debug = false)
    (hr : c.current.rest = (es.map code).flatten ++ rest)
    (hd : ∀ e ∈ es, ∀ depth ≤ c.depth + e.nesting, enter limit depth = .ok ()) :
    Reaches limit c c.current.stack rest ((es.map (value c.session.callback)).mapM id) := by
  induction es generalizing c with
  | nil =>
    obtain ⟨⟨_, stack, last⟩, callers, session⟩ := c
    obtain rfl : _ = rest := hr
    exact ⟨last, session, .refl _, rfl⟩
  | cons e es ih =>
    rw [List.map_cons, List.flatten_cons, List.append_assoc] at hr
    have he := hes e List.mem_cons_self c _ hoff hr (hd e List.mem_cons_self)
    rw [List.map_cons, List.mapM_cons]
    cases hv : e.value c.session.callback with
    | error f =>
      rw [hv] at he
      exact he
    | ok v =>
      rw [hv] at he
      obtain ⟨last, session, hq, hrun⟩ := he
      -- The other codes run on top of the value, which counts as pushed first.
      have hrest := ih (fun e' h => hes e' (List.mem_cons_of_mem _ h))
        ⟨⟨(es.map code).flatten ++ rest, v :: c.current.stack, last⟩, c.callers, session⟩
        (hq.debug.trans hoff) rfl fun e' h => hd e' (List.mem_cons_of_mem _ h)
      rw [hq.callback] at hrest
      exact (hrest.of_run hrun hq rfl).cons

/-- Computed values are as many as the expressions. -/
theorem length_of_mapM {xs : List (Except CallFailure Value)} {vs : List Value}
    (h : xs.mapM id = .ok vs) : vs.length = xs.length := by
  induction xs generalizing vs with
  | nil =>
    obtain rfl := Except.ok.inj h
    rfl
  | cons x xs ih =>
    rw [List.mapM_cons] at h
    obtain ⟨v, _, h⟩ := bind_eq_ok.1 h
    obtain ⟨ws, hws, h⟩ := bind_eq_ok.1 h
    obtain rfl := Except.ok.inj h
    rw [List.length_cons, List.length_cons, ih hws]

theorem le_foldr_max {n : Nat} {ns : List Nat} (h : n ∈ ns) : n ≤ ns.foldr max 0 := by
  induction ns with
  | nil => exact absurd h List.not_mem_nil
  | cons m ns ih =>
    rcases List.mem_cons.1 h with rfl | h
    · exact Nat.le_max_left _ _
    · exact (ih h).trans (Nat.le_max_right _ _)

/-- A call runs as its value says if its arguments do. -/
theorem runsAsValue_call {p : Primitive} {args : Fin p.arity → Expr}
    (hargs : ∀ i, (args i).RunsAsValue limit) : (call p args).RunsAsValue limit := by
  intro c rest hoff hr hd
  rw [code, List.append_assoc, ← Function.comp_def, ← List.map_ofFn] at hr
  have hes : ∀ e ∈ List.ofFn args, e.RunsAsValue limit := fun e he => by
    obtain ⟨i, rfl⟩ := List.mem_ofFn.1 he
    exact hargs i
  have hdepth : ∀ e ∈ List.ofFn args, ∀ depth ≤ c.depth + e.nesting,
      enter limit depth = .ok () := fun e he depth hle => by
    obtain ⟨i, rfl⟩ := List.mem_ofFn.1 he
    have hi : (args i).nesting ≤ (call p args).nesting :=
      le_foldr_max (List.mem_ofFn.2 ⟨i, rfl⟩)
    exact hd depth (hle.trans (Nat.add_le_add_left hi _))
  have hreach := reaches_operands hes c _ hoff hr hdepth
  rw [List.map_ofFn, Function.comp_def] at hreach
  rw [value]
  cases hvs : (List.ofFn fun i => (args i).value c.session.callback).mapM id with
  | error f =>
    rw [hvs] at hreach
    exact hreach
  | ok vs =>
    rw [hvs] at hreach
    obtain ⟨last, session, hq, hrun⟩ := hreach
    obtain ⟨session', hq', hrun'⟩ := run_of_pushes limit
      (c := ⟨⟨.literal (.str p.name) :: .morphism .apply :: rest,
        vs.reverse ++ c.current.stack, last⟩, c.callers, session⟩)
      (hq.debug.trans hoff) rfl (.literal _)
    have happly := reaches_apply limit
      (c := ⟨⟨.morphism .apply :: rest, .str p.name :: (vs.reverse ++ c.current.stack), last⟩,
        c.callers, session'⟩) ((hq.trans hq').debug.trans hoff) rfl rfl
      ((length_of_mapM hvs).trans List.length_ofFn)
    rw [(hq.trans hq').callback] at happly
    exact happly.of_run (hrun.trans hrun') (hq.trans hq') rfl

/-- A branch that is entered gives its value to the derivation that waits for it,
    or fails as its value does. -/
theorem reaches_branch {e : Expr} (he : e.RunsAsValue limit) {p : Pending}
    {session : Session Event} (hoff : c.session.tracer.debug = false)
    (hq : Quiet c.session session)
    (hrun : run limit c = run limit ⟨.start e.code, p :: c.callers, session⟩)
    (hd : ∀ depth ≤ c.depth + 1 + e.nesting, enter limit depth = .ok ()) :
    Reaches limit c p.frame.stack p.frame.rest ((e.value c.session.callback).map ([·])) := by
  -- The branch runs on an empty stack, one level deeper.
  have hreach := he ⟨.start e.code, p :: c.callers, session⟩ [] (hq.debug.trans hoff)
    (List.append_nil _).symm hd
  rw [hq.callback] at hreach
  cases hw : e.value c.session.callback with
  | error f =>
    rw [hw] at hreach
    obtain ⟨session', hq', hrun'⟩ := hreach
    exact ⟨session', hq.trans hq', hrun.trans hrun'⟩
  | ok w =>
    rw [hw] at hreach
    obtain ⟨last, session', hq', hrun'⟩ := hreach
    obtain ⟨final, hq'', hrun''⟩ :=
      run_of_single limit w p c.callers last ((hq.trans hq').debug.trans hoff)
    exact ⟨p.frame.last, final, (hq.trans hq').trans hq'', (hrun.trans hrun').trans hrun''⟩

/-- A conditional runs as its value says if its parts do. -/
theorem runsAsValue_cond {condition thenBranch elseBranch : Expr}
    (hc : condition.RunsAsValue limit) (ht : thenBranch.RunsAsValue limit)
    (he : elseBranch.RunsAsValue limit) :
    (cond condition thenBranch elseBranch).RunsAsValue limit := by
  intro c rest hoff hr hd
  rw [code, List.append_assoc] at hr
  rw [nesting] at hd
  have hreach := hc c _ hoff hr fun depth hle => hd depth (by omega)
  rw [value]
  cases hv : condition.value c.session.callback with
  | error f =>
    rw [hv] at hreach
    exact hreach
  | ok b =>
    rw [hv] at hreach
    obtain ⟨last, session, hq, hrun⟩ := hreach
    have hroom : enter limit (c.depth + 1) = .ok () := hd _ (by omega)
    obtain ⟨session', hq', hrun'⟩ := run_of_branches
      (c := ⟨⟨_, b :: c.current.stack, last⟩, c.callers, session⟩) (hq.debug.trans hoff) rfl rfl
      hroom
    have hrun := hrun.trans hrun'
    show Reaches limit c c.current.stack rest ((if b.truthy then
      thenBranch.value c.session.callback else elseBranch.value c.session.callback).map ([·]))
    by_cases hb : b.truthy
    · rw [if_pos hb] at hrun ⊢
      exact reaches_branch ht hoff (hq.trans hq') hrun fun depth hle => hd depth (by omega)
    · rw [if_neg hb] at hrun ⊢
      exact reaches_branch he hoff (hq.trans hq') hrun fun depth hle => hd depth (by omega)

/-- The code of every expression runs as its value says. -/
theorem reaches_code (limit : Value) (e : Expr) : e.RunsAsValue limit := by
  induction e with
  | literal v =>
    intro c rest hoff hr _
    obtain ⟨session, hq, hrun⟩ := run_of_pushes limit hoff hr (.literal v)
    exact ⟨_, session, hq, hrun⟩
  | call p args ih => exact runsAsValue_call ih
  | cond condition thenBranch elseBranch ihc iht ihe => exact runsAsValue_cond ihc iht ihe

end Expr

/-! ## Calls -/

/-- Without debugging the evaluator gives the value of an expression for its code, or
    fails for the call that fails. It adds no warning. -/
theorem evaluate_code_of_off (ev : Evaluator) {derivation : Value} {e : Expr} {limit : Int}
    (hoff : ev.shell.tracer.debug = false) (hfree : ev.shell.inFlight = false)
    (hlimit : ev.limit = .int limit) (hn : (e.nesting : Int) ≤ limit)
    (hd : derivation.items? = .ok e.code) :
    (ev.evaluate derivation).outcome =
        (e.value ev.shell.opening.callback).mapError (fun f => f.reason.raised) ∧
      (ev.evaluate derivation).after.shell.warnings = [] := by
  obtain ⟨houtcome, hafter⟩ := Evaluator.evaluate_of_steps hfree hd
  rw [houtcome, hafter, hlimit]
  have hroom : ∀ depth ≤ e.nesting, enter (.int limit) depth = .ok () := fun depth h =>
    enter_int_eq_ok.2 ((Int.ofNat_le.2 h).trans hn)
  rw [runDerivation, hroom 0 (Nat.zero_le _)]
  have hreach := Expr.reaches_code (.int limit) e ⟨.start e.code, [], ev.opening e.code⟩ [] hoff
    (List.append_nil _).symm fun depth h => hroom depth (h.trans (Nat.zero_add _).le)
  rw [show (ev.opening e.code).callback = ev.shell.opening.callback from rfl] at hreach
  cases hv : e.value ev.shell.opening.callback with
  | error f =>
    rw [hv] at hreach
    obtain ⟨session, hq, hrun⟩ := hreach
    dsimp only
    rw [hrun]
    exact ⟨rfl, hq.warnings⟩
  | ok v =>
    rw [hv] at hreach
    obtain ⟨last, session, hq, hrun⟩ := hreach
    have hlast : Config.Transition (.int limit) ⟨⟨[], [v], last⟩, [], session⟩ _ :=
      .finished rfl rfl rfl rfl
    have hend := run_of_halted (Config.next_of_transition hlast)
    dsimp only
    rw [hrun]
    exact ⟨congrArg Prod.fst hend, (congrArg (fun s => s.2.warnings) hend).trans hq.warnings⟩

/-- The evaluator gives the value of an expression for its code, or fails for the
    call that fails, if all it puts on record can be described where it has to be. It adds
    no warning. -/
theorem evaluate_code (ev : Evaluator) {derivation : Value} {e : Expr} {limit : Int}
    (hfree : ev.shell.inFlight = false) (hlimit : ev.limit = .int limit)
    (hn : (e.nesting : Int) ≤ limit) (hd : derivation.items? = .ok e.code)
    (hdescribes : ev.Describes derivation) :
    (ev.evaluate derivation).outcome =
        (e.value ev.shell.opening.callback).mapError (fun f => f.reason.raised) ∧
      (ev.evaluate derivation).after.shell.warnings = [] := by
  obtain ⟨houtcome, hwarnings⟩ := evaluate_code_of_off (ev.withDebug false) rfl hfree hlimit hn hd
  have hseen := ev.seen_withDebug hfree hdescribes
  exact ⟨(congrArg Evaluator.Seen.outcome hseen).symm.trans houtcome,
    (congrArg Evaluator.Seen.warnings hseen).symm.trans hwarnings⟩

/-- The square of six behind two conditionals, with a name as one of the operands
    that are not chosen. -/
def Expr.sample : Expr :=
  .cond (.call .isZero fun _ => .call .subtract fun _ => .literal (.int 1))
    (.cond (.literal (.int 0)) (.literal .null) (.call .multiply fun _ => .literal (.int 6)))
    (.literal (.str "isZero"))

theorem evaluate_code_sample :
    ((Evaluator.new .null (.int 2)).evaluate (.list Expr.sample.code)).outcome =
        .ok (.int 36) ∧
      ((Evaluator.new .null (.int 2)).evaluate (.list Expr.sample.code)).after.shell.warnings =
        [] := by
  have hzero : (Value.int 0).isZero = true := Number.eq_int_int 0 0
  have hvalue : Expr.sample.value (Evaluator.new .null (.int 2)).shell.opening.callback =
      .ok (.int 36) := by
    have hsub : (Value.int 1).sub? (.int 1) = .ok (.int 0) := rfl
    have hmul (callback) : (Value.int 6).mul? callback (.int 6) = .ok (.int 36) := rfl
    simp [Expr.sample, Expr.value, bind, Except.bind, pure, Except.pure, mapError_ok,
      Primitive.call, Operation.call, Primitive.operation, Primitive.run, Value.truthy,
      hzero, hsub, hmul]
  have hitems : (Value.list Expr.sample.code).items? = .ok Expr.sample.code := rfl
  have h := evaluate_code (e := .sample) (Evaluator.new .null (.int 2)) rfl rfl (by decide) hitems
    (Evaluator.describes_of_off rfl _)
  rw [hvalue] at h
  exact h

/-- A text subtracted from a square that has no text. -/
def Expr.oversized : Expr :=
  .call .subtract fun i =>
    if i.val = 0 then .call .multiply fun _ => .literal .hugeRoot else .literal (.str "x")

/-- The call that fails is the reason for which its code fails only if it can be put into
    words. -/
theorem code_of_oversized :
    Expr.oversized.value (Evaluator.new .null .null).shell.opening.callback =
        .error ⟨.subtract, [.huge, .str "x"], .fault (.unsupported "-" "int" "str")⟩ ∧
      ((Evaluator.new .null .null).evaluate (.list Expr.oversized.code)).outcome =
        .error (.fault .tooManyDigits) := by
  have hvalue : Expr.oversized.value (Evaluator.new .null .null).shell.opening.callback =
      .error ⟨.subtract, [.huge, .str "x"], .fault (.unsupported "-" "int" "str")⟩ := by
    have hsub : Value.huge.sub? (.str "x") = .error (.unsupported "-" "int" "str") := rfl
    have hmul (callback) : Value.hugeRoot.mul? callback .hugeRoot = .ok .huge :=
      congrArg (Except.mapError Failure.fault) Value.product?_hugeRoot
    simp [Expr.oversized, Expr.value, bind, Except.bind, pure, Except.pure, Except.mapError,
      Primitive.call, Operation.call, Primitive.operation, Primitive.run, hsub, hmul]
  have hitems : (Value.list Expr.oversized.code).items? = .ok Expr.oversized.code := rfl
  have hnesting : Expr.oversized.nesting = 0 := by decide
  refine ⟨hvalue, ?_⟩
  rw [(evaluate_code_of_off (e := .oversized) (Evaluator.new .null .null) rfl rfl rfl
    (hnesting ▸ Int.natCast_nonneg _) hitems).1, hvalue, Except.mapError]
  refine congrArg Except.error (EvalError.raised_of_not_showable ?_)
  exact Value.areShowable_of_huge_mem List.mem_cons_self

end Heptad.Stack
