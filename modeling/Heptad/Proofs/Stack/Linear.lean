import Mathlib.Algebra.Order.BigOperators.Group.List
import Mathlib.Algebra.Order.Group.Multiset
import Mathlib.Data.Multiset.AddSub
import Heptad.Proofs.Stack.Run

/-!
# Every step is executed at most once

A sub-derivation is moved about: from a step or a literal onto the stack, from
there into a branch, out of a branch as its value and into another branch. It is
never copied, and no primitive results in one. So whatever is executed is taken
from a stock that only shrinks:

* `Config.pending`: the occurrences of steps a configuration can still execute;
* `executed_add_pending_le`: a transition takes what it executes out of them;
* `executed_at_most_once`: so a call executes no occurrence twice, whatever the
  limit and however it ends, and the count of steps is at most their number.
-/

namespace Heptad.Stack

variable {limit : Value} {c c' : Config} {o : Origins}

/-! ## Origins of transitions -/

/-- Each operand has an origin, also those of derivations that wait. -/
structure Origins.Fits (o : Origins) (c : Config) : Prop where
  current : c.current.stack.length = o.current.operands.length
  callers : List.Forall₂ (fun p q => p.frame.stack.length = q.operands.length)
    c.callers o.callers

theorem follow_of_pushes {step v : Value} {rest : List Value} {action : Nat → Action}
    (hr : c.current.rest = step :: rest) (hp : Pushes step v action) : o.follow c = o.push := by
  rw [Origins.follow, hr]
  cases hp with
  | literal | sub => rfl
  | @morphism m ha hc =>
    cases m with
    | apply => exact absurd rfl ha
    | cond => exact absurd rfl hc
    | identity | lambda | conj | neg | pair => rfl

theorem follow_of_target {rest operands : List Value} {p : Primitive} {implicit : Bool}
    (hr : c.current.rest = .morphism .apply :: rest)
    (ht : target c.current.stack c.current.last = .ok (p, implicit, operands)) :
    o.follow c = { o with
      current := o.current.advance (o.current.here ::
        o.current.operands.drop (if implicit then p.arity else p.arity + 1)) } := by
  rw [Origins.follow, hr]
  show o.apply c.current = _
  rw [Origins.apply, ht]

/-- What an application leaves on the stack is the stack without the operands
    and, unless it is implicit, the name. -/
theorem drop_of_target {stack operands : List Value} {last : Option Primitive} {p : Primitive}
    {implicit : Bool} (h : target stack last = .ok (p, implicit, operands)) (n : Nat) :
    operands.drop n = stack.drop (if implicit then n else n + 1) := by
  rw [target.eq_def] at h
  split at h
  · exact nomatch h
  · split at h
    · split at h
      · cases h
        rfl
      · exact nomatch h
    · cases h
      rfl
    · exact nomatch h

/-- The operands of a conditional have their origins. -/
theorem Origins.Fits.exists_operands (hf : o.Fits c) {e t b : Value} {below : List Value}
    (hs : c.current.stack = e :: t :: b :: below) :
    ∃ elseOrigin thenOrigin condOrigin beneath, o.current.operands =
      elseOrigin :: thenOrigin :: condOrigin :: beneath ∧ below.length = beneath.length := by
  have hl := hf.current
  rw [hs] at hl
  match h : o.current.operands with
  | [] | [_] | [_, _] => simp [h] at hl
  | elseOrigin :: thenOrigin :: condOrigin :: beneath =>
    refine ⟨elseOrigin, thenOrigin, condOrigin, beneath, rfl, ?_⟩
    simpa [h] using hl

section Conditional

variable {rest below : List Value} {e t b : Value} {elseOrigin thenOrigin condOrigin : Place}
  {beneath : List Place}

theorem follow_of_decided (hr : c.current.rest = .morphism .cond :: rest)
    (hs : c.current.stack = e :: t :: b :: below) (hv : ∀ steps, chosen b t e ≠ .sub steps)
    (ho : o.current.operands = elseOrigin :: thenOrigin :: condOrigin :: beneath) :
    o.follow c = { o with
      current := o.current.advance
        ((if b.truthy then thenOrigin else elseOrigin) :: beneath) } := by
  rw [Origins.follow, hr]
  show o.choose c.current = _
  rw [Origins.choose, hs, ho]
  dsimp only
  split
  · rename_i steps h
    exact absurd h (hv steps)
  · rfl

theorem follow_of_entered {steps : List Value} (hr : c.current.rest = .morphism .cond :: rest)
    (hs : c.current.stack = e :: t :: b :: below) (hv : chosen b t e = .sub steps)
    (ho : o.current.operands = elseOrigin :: thenOrigin :: condOrigin :: beneath) :
    o.follow c = ⟨⟨if b.truthy then thenOrigin else elseOrigin, 0, []⟩,
      o.current.advance beneath :: o.callers⟩ := by
  rw [Origins.follow, hr]
  show o.choose c.current = _
  rw [Origins.choose, hs, ho]
  dsimp only
  rw [hv]

end Conditional

theorem follow_of_returned {q : Origin} {origins : List Origin} (hr : c.current.rest = [])
    (ho : o.callers = q :: origins) :
    o.follow c =
      ⟨{ q with operands := o.current.operands.getLast?.getD [] :: q.operands }, origins⟩ := by
  rw [Origins.follow, hr]
  show o.giveBack = _
  rw [Origins.giveBack, ho]

/-- Operands keep their origins where a derivation moves on. -/
theorem Origins.Fits.moved (hf : o.Fits c) {d : Config} {frame : Frame} {action : Action}
    (h : Config.Moves c d frame action) : (o.follow c).Fits (d.moved frame action) := by
  cases h with
  | pushed hr hp =>
    rw [follow_of_pushes hr hp]
    exact ⟨congrArg Nat.succ hf.current, hf.callers⟩
  | @applied rest operands p implicit result hr ht ha hc =>
    rw [follow_of_target hr ht]
    refine ⟨congrArg Nat.succ ?_, hf.callers⟩
    rw [drop_of_target ht, List.length_drop, List.length_drop, hf.current]
  | decided hr hs hv =>
    obtain ⟨_, _, _, beneath, ho, hl⟩ := hf.exists_operands hs
    rw [follow_of_decided hr hs hv ho]
    exact ⟨congrArg Nat.succ hl, hf.callers⟩
  | @returned p callers v session hr hv hc =>
    obtain ⟨q, origins, hq, hqs, ho⟩ := List.forall₂_cons_left_iff.1 (hc ▸ hf.callers)
    rw [follow_of_returned hr ho]
    exact ⟨congrArg Nat.succ hq, hqs⟩

/-- Every transition keeps origins fitting that follow it. -/
theorem Origins.Fits.follow (hf : o.Fits c) (h : Config.Transition limit c (.running c')) :
    (o.follow c).Fits c' := by
  cases h with
  | moved hm => exact hf.moved hm
  | entered hr hs hv he =>
    obtain ⟨_, _, _, beneath, ho, hl⟩ := hf.exists_operands hs
    rw [follow_of_entered hr hs hv ho]
    exact ⟨rfl, .cons hl hf.callers⟩

/-! ## The stock -/

/-- The occurrences held by the operands on a stack. -/
def held (operands : List (Value × Place)) : Multiset (Place × Value) :=
  (operands.map fun x => (heldOccurrences x.2 x.1 : Multiset (Place × Value))).sum

@[simp] theorem held_nil : held [] = 0 := rfl

@[simp] theorem held_cons (x : Value × Place) (operands : List (Value × Place)) :
    held (x :: operands) = (heldOccurrences x.2 x.1 : Multiset _) + held operands := List.sum_cons

/-- Some of the operands hold no more than all. -/
theorem held_le {xs ys : List (Value × Place)} (h : xs.Sublist ys) : held xs ≤ held ys :=
  (h.map _).sum_le_sum fun _ _ => Multiset.zero_le _

/-- The occurrences a derivation in progress can still execute. -/
def Frame.pending (f : Frame) (o : Origin) : Multiset (Place × Value) :=
  (occurrences o.place o.next f.rest : Multiset _) + held (f.stack.zip o.operands)

/-- The occurrences that derivations can still execute once they do not wait. -/
def waiting (callers : List Pending) (origins : List Origin) : Multiset (Place × Value) :=
  (callers.zipWith (fun p q => p.frame.pending q) origins).sum

/-- The occurrences a configuration can still execute. -/
def Config.pending (c : Config) (o : Origins) : Multiset (Place × Value) :=
  c.current.pending o.current + waiting c.callers o.callers

/-- The occurrences that can still be executed after a transition. -/
def Next.pending (o : Origins) : Next → Multiset (Place × Value)
  | .running c => c.pending o
  | .halted _ _ => 0

/-! ## Transitions -/

theorem pending_of_cons {step : Value} {rest : List Value} (h : c.current.rest = step :: rest) :
    c.pending o = {(o.current.here, step)} +
      ((innerOccurrences o.current.here step : Multiset _) +
        (occurrences o.current.place (o.current.next + 1) rest : Multiset _) +
        held (c.current.stack.zip o.current.operands) + waiting c.callers o.callers) := by
  rw [Config.pending, Frame.pending, h, occurrences, ← Multiset.coe_add, ← Multiset.cons_coe,
    ← Multiset.singleton_add]
  simp only [Origin.here, add_assoc]

/-- The occurrences inside a step that pushes are held by what it pushes. -/
theorem innerOccurrences_of_pushes {step v : Value} {action : Nat → Action}
    (h : Pushes step v action) (p : Place) : innerOccurrences p step = heldOccurrences p v := by
  cases h with
  | literal | morphism | sub => rfl

/-- The branch that is chosen was one of the operands. -/
theorem sublist_of_chosen (e t b : Value) (elseOrigin thenOrigin condOrigin : Place)
    (below : List (Value × Place)) :
    ((chosen b t e, if b.truthy then thenOrigin else elseOrigin) :: below).Sublist
      ((e, elseOrigin) :: (t, thenOrigin) :: (b, condOrigin) :: below) := by
  have hb : below.Sublist ((b, condOrigin) :: below) := List.sublist_cons_self _ below
  rw [chosen]
  split
  · exact (hb.cons_cons _).cons _
  · exact (hb.cons _).cons_cons _

/-- The value at the bottom of a stack has the origin at the bottom. -/
theorem mem_zip_of_getLast? {stack : List Value} {origins : List Place} {v : Value}
    (hl : stack.length = origins.length) (h : stack.getLast? = some v) :
    (v, origins.getLast?.getD []) ∈ stack.zip origins := by
  rw [List.getLast?_eq_getElem?] at h ⊢
  obtain ⟨hlt, -⟩ := List.getElem?_eq_some_iff.1 h
  refine List.mem_of_getElem? (i := stack.length - 1) (List.getElem?_zip_eq_some.2 ⟨h, ?_⟩)
  rw [← hl, List.getElem?_eq_getElem (hl ▸ hlt), Option.getD_some]

/-- The step a configuration executes is in the stock. -/
theorem executed_le (c : Config) (o : Origins) : (c.executed o : Multiset _) ≤ c.pending o := by
  cases hr : c.current.rest with
  | nil =>
    rw [executed_of_nil hr]
    exact Multiset.zero_le _
  | cons step rest =>
    rw [executed_of_cons hr, pending_of_cons hr]
    exact Multiset.le_add_right _ _

/-- Where a derivation moves on, the step it executes is taken out of the stock and
    nothing is added. -/
theorem executed_add_pending_moved_le {d : Config} {frame : Frame} {action : Action}
    (h : Config.Moves c d frame action) (hf : o.Fits c) :
    (c.executed o : Multiset _) + (d.moved frame action).pending (o.follow c) ≤ c.pending o := by
  cases h with
  | @pushed step v rest action hr hp =>
    rw [executed_of_cons hr, pending_of_cons hr, follow_of_pushes hr hp,
      innerOccurrences_of_pushes hp]
    -- What occurs inside the step moves to the value it pushes.
    refine add_le_add le_rfl (le_of_eq ?_)
    show (occurrences o.current.place (o.current.next + 1) rest : Multiset _) +
      held ((v :: c.current.stack).zip (o.current.here :: o.current.operands)) + _ = _
    rw [List.zip_cons_cons, held_cons]
    ac_rfl
  | @applied rest operands p implicit result hr ht ha hc =>
    rw [executed_of_cons hr, pending_of_cons hr, follow_of_target hr ht]
    refine add_le_add le_rfl (add_le_add (add_le_add (Multiset.le_add_left _ _) ?_) le_rfl)
    -- The result holds no steps, and the operands that stay held theirs before.
    rw [drop_of_target ht]
    show held ((result :: _).zip (o.current.here :: _)) ≤ _
    rw [List.zip_cons_cons, held_cons, heldOccurrences_of_call hc]
    refine (zero_add _).trans_le (held_le ?_)
    rw [List.zip_eq_zipWith, ← List.drop_zipWith]
    exact List.drop_sublist _ _
  | @decided rest below e t b hr hs hv =>
    obtain ⟨elseOrigin, thenOrigin, condOrigin, beneath, ho, hl⟩ := hf.exists_operands hs
    rw [executed_of_cons hr, pending_of_cons hr, follow_of_decided hr hs hv ho, hs, ho]
    refine add_le_add le_rfl (add_le_add (add_le_add (Multiset.le_add_left _ _) ?_) le_rfl)
    -- Of the three operands one is left.
    exact held_le (sublist_of_chosen e t b elseOrigin thenOrigin condOrigin _)
  | @returned p callers v session hr hv hc =>
    obtain ⟨q, origins, hq, hqs, ho⟩ := List.forall₂_cons_left_iff.1 (hc ▸ hf.callers)
    rw [executed_of_nil hr, follow_of_returned hr ho, Config.pending, Config.pending, hc, ho]
    -- The value that is given back was held by the bottom of the stack. It can be a
    -- sub-derivation, which then waits on the stack of the caller.
    have hle : (heldOccurrences (o.current.operands.getLast?.getD []) v : Multiset _) ≤
        c.current.pending o.current := by
      have hmem := mem_zip_of_getLast? hf.current hv
      have hheld := held_le (List.singleton_sublist.2 hmem)
      rw [held_cons, held_nil, add_zero] at hheld
      exact hheld.trans (Multiset.le_add_left _ _)
    refine (le_of_eq ?_).trans (add_le_add hle le_rfl)
    show (0 : Multiset _) + ((occurrences q.place q.next p.frame.rest : Multiset _) +
      held ((v :: p.frame.stack).zip (_ :: q.operands)) + waiting callers origins) =
        _ + (p.frame.pending q + waiting callers origins)
    rw [List.zip_cons_cons, held_cons, Frame.pending, zero_add]
    ac_rfl

/-- A transition takes the step it executes out of the stock and adds nothing. -/
theorem executed_add_pending_le {n : Next} (h : Config.Transition limit c n) (hf : o.Fits c) :
    (c.executed o : Multiset _) + n.pending (o.follow c) ≤ c.pending o := by
  cases h with
  | moved hm => exact executed_add_pending_moved_le hm hf
  | @entered rest below steps e t b hr hs hv he =>
    obtain ⟨elseOrigin, thenOrigin, condOrigin, beneath, ho, hl⟩ := hf.exists_operands hs
    rw [executed_of_cons hr, pending_of_cons hr, follow_of_entered hr hs hv ho, hs, ho]
    -- The steps of the branch move from the stack into a frame of their own.
    have hle := held_le
      (sublist_of_chosen e t b elseOrigin thenOrigin condOrigin (below.zip beneath))
    rw [hv, held_cons] at hle
    refine add_le_add le_rfl ((le_of_eq ?_).trans (add_le_add (add_le_add le_rfl hle) le_rfl))
    show (heldOccurrences _ (.sub steps) : Multiset _) + 0 +
      ((occurrences o.current.place (o.current.next + 1) rest : Multiset _) +
        held (below.zip beneath) + waiting c.callers o.callers) = _
    rw [show innerOccurrences o.current.here (.morphism .cond) = [] from rfl, Multiset.coe_nil]
    simp only [add_zero, zero_add]
    ac_rfl
  | undescribed | failed | finished | unwarned | emptied =>
    exact (add_zero _).trans_le (executed_le c o)

/-! ## Runs -/

/-- A run executes only what was pending, and each occurrence once. -/
theorem executions_le (limit : Value) (hf : o.Fits c) :
    (executions limit c o : Multiset _) ≤ c.pending o := by
  induction c using run.induct limit generalizing o with
  | case1 c outcome session h =>
    rw [executions_of_halted h]
    exact (Multiset.le_add_right _ _).trans
      (executed_add_pending_le (Config.next_eq_iff.1 h) hf)
  | case2 c c' h ih =>
    have ht := Config.next_eq_iff.1 h
    rw [executions_of_running h, ← Multiset.coe_add]
    exact (add_le_add le_rfl (ih (hf.follow ht))).trans (executed_add_pending_le ht hf)

namespace Evaluator

/-- What a call executes are occurrences of steps in its derivation. -/
theorem executions_subperm (e : Evaluator) (steps : List Value) :
    (e.executions steps).Subperm (occurrences [] 0 steps) := by
  rw [executions]
  cases enter e.limit 0 with
  | error failure => exact List.nil_subperm
  | ok _ =>
    have h := executions_le (c := ⟨.start steps, [], e.opening steps⟩) (o := .start) e.limit
      ⟨rfl, .nil⟩
    rw [Config.pending, Frame.pending] at h
    exact Multiset.coe_le.1 (h.trans_eq ((add_zero _).trans (add_zero _)))

/-- Every admitted call of an evaluator, whatever its limit and however it ends,
    executes each occurrence of a step in its derivation at most once and nothing
    else. So the count of steps is at most the weight of the derivation. -/
theorem executed_at_most_once (e : Evaluator) (h : e.shell.inFlight = false) {derivation : Value}
    {steps : List Value} (hi : derivation.items? = .ok steps) :
    (e.evaluate derivation).after.shell.steps = (e.executions steps).length ∧
      ((e.executions steps).map Prod.fst).Nodup ∧
      (∀ x ∈ e.executions steps, x ∈ occurrences [] 0 steps) ∧
      (e.evaluate derivation).after.shell.steps ≤ stepsWeight steps := by
  have hsub := e.executions_subperm steps
  have hsteps := steps_evaluate h hi
  refine ⟨hsteps, ?_, fun x hx => hsub.subset hx, ?_⟩
  · obtain ⟨log, hperm, hlog⟩ := hsub
    exact (hperm.map _).nodup_iff.1 ((hlog.map _).nodup (nodup_places [] 0 steps))
  · rw [hsteps, ← length_occurrences [] 0]
    exact hsub.length_le

/-- A conditional whose branch gives a sub-derivation, and a second one that runs
    what it gave. -/
def branchOfBranch : List Value :=
  [.literal (.bool true), .literal (.bool true), .sub [.sub [.literal (.int 1)]],
    .literal (.int 0), .morphism .cond, .literal (.int 0), .morphism .cond]

theorem executed_at_most_once_of_branch :
    (((new .null .null).executions branchOfBranch).map Prod.fst).Nodup ∧
      ((new .null .null).evaluate (.list branchOfBranch)).after.shell.steps ≤ 9 :=
  have hitems : (Value.list branchOfBranch).items? = .ok branchOfBranch := rfl
  have ⟨_, hnodup, _, hle⟩ := executed_at_most_once (new .null .null) rfl hitems
  ⟨hnodup, hle⟩

end Evaluator

end Heptad.Stack
