import Heptad.Proofs.Stack.Closed

/-!
# Derivations do not run dry

Every step that is executed leaves something on the stack of its derivation, so that
this is empty only before the first step. A derivation has no result only if it has no
steps, and finds no operands at all only if it begins with an application.

* `Enters`: the derivations that a run enters, the outermost one among them;
* `stack_of_next`: what a transition leaves on the stack;
* `start_of_empty`: a derivation with an empty stack has just been entered;
* `fails_iff_enters`: so what is found on an empty stack tells which derivation was;
* `Evaluator.never_runs_dry`: the two failures of a call for which this is so.
-/

namespace Heptad.Stack

/-! ## Derivations entered -/

/-- A run of steps enters a derivation: it is the outermost one, or a sub-derivation that
    a conditional chooses, and it is not nested beyond the limit. -/
inductive Enters (limit : Value) (steps : List Value) (session : Session Event) :
    List Value → Prop
  | outermost : enter limit 0 = .ok () → Enters limit steps session steps
  | branch {c : Config} {rest below inner : List Value} {e t b : Value} :
      enter limit 0 = .ok () → ComesTo limit ⟨.start steps, [], session⟩ c →
      c.current.rest = .morphism .cond :: rest → c.current.stack = e :: t :: b :: below →
      chosen b t e = .sub inner → enter limit (c.depth + 1) = .ok () →
      Enters limit steps session inner

variable {limit : Value} {steps inner : List Value} {session : Session Event} {c d : Config}

/-- A transition leaves something on the stack of the derivation it goes on with, unless
    it enters a branch. -/
theorem stack_of_next (h : c.next limit = .running d) :
    d.current.stack ≠ [] ∨ ∃ rest below inner e t b,
      c.current.rest = .morphism .cond :: rest ∧ c.current.stack = e :: t :: b :: below ∧
      chosen b t e = .sub inner ∧ enter limit (c.depth + 1) = .ok () ∧
      d.current = .start inner ∧ d.depth = c.depth + 1 := by
  generalize hnext : Next.running d = next at h
  cases Config.next_eq_iff.1 h with
  | moved hm =>
    cases hnext
    cases hm with
    | pushed | applied | decided | returned => exact .inl (List.cons_ne_nil _ _)
  | entered hr hs hv he =>
    cases hnext
    exact .inr ⟨_, _, _, _, _, _, hr, hs, hv, he, rfl, rfl⟩
  | undescribed | failed | finished | unwarned | emptied => cases hnext

/-- A transition of a run leaves something on the stack, or enters a branch that is one of
    those the run enters. -/
theorem stack_of_comesTo (he : enter limit 0 = .ok ())
    (hc : ComesTo limit ⟨.start steps, [], session⟩ c) (h : c.next limit = .running d) :
    d.current.stack ≠ [] ∨ ∃ inner, Enters limit steps session inner ∧
      d.current = .start inner ∧ d.depth = c.depth + 1 :=
  (stack_of_next h).imp_right fun ⟨_, _, inner, _, _, _, hr, hs, hv, hin, hd, hdepth⟩ =>
    ⟨inner, .branch he hc hr hs hv hin, hd, hdepth⟩

/-- A derivation that a run comes to and that has nothing on its stack has just been
    entered. -/
theorem start_of_empty (he : enter limit 0 = .ok ())
    (h : ComesTo limit ⟨.start steps, [], session⟩ c) (hs : c.current.stack = []) :
    ∃ inner, Enters limit steps session inner ∧ c.current = .start inner := by
  cases h with
  | refl => exact ⟨steps, .outermost he, rfl⟩
  | tail hc hn =>
    rcases stack_of_comesTo he hc hn with hne | ⟨inner, hin, hd, -⟩
    · exact absurd hs hne
    · exact ⟨inner, hin, hd⟩

/-- A run comes to the start of each derivation that it enters. -/
theorem exists_of_enters (h : Enters limit steps session inner) :
    enter limit 0 = .ok () ∧
      ∃ c, ComesTo limit ⟨.start steps, [], session⟩ c ∧ c.current = .start inner := by
  cases h with
  | outermost he => exact ⟨he, _, .refl, rfl⟩
  | branch he hc hr hs hv hin =>
    exact ⟨he, _, hc.tail (Config.next_of_transition (.entered hr hs hv hin)), rfl⟩

/-! ## Failures of empty stacks -/

/-- A configuration has nothing to give iff it has neither steps nor operands left. -/
theorem halts_noResult_iff :
    (∃ s, c.next limit = .halted (.error (.evaluation .noResult)) s) ↔
      c.current.stack = [] ∧ c.current.rest = [] := by
  constructor
  · rintro ⟨s, h⟩
    rcases Config.fails_of_halted h with ⟨step, rest, -, hf⟩ | ⟨-, hr, hs⟩
    · generalize hfailure : Failure.evaluation .noResult = failure at hf
      cases hf with
      | target ht =>
        rcases target_eq_error ht with rfl | ⟨_, rfl⟩ | ⟨_, rfl⟩ <;>
          cases EvalError.eq_of_raised hfailure.symm
      | nesting _ _ he => cases eq_tooDeep_of_enter (hfailure ▸ he)
      | operands | primitive | condOperands | notAStep =>
        cases EvalError.eq_of_raised hfailure.symm
    · exact ⟨hs, hr⟩
  · rintro ⟨hs, hr⟩
    exact ⟨_, Config.next_of_transition (.emptied hr hs)⟩

theorem target_eq_emptyStack_iff {stack : List Value} {last : Option Primitive} :
    target stack last = .error .emptyStack ↔ stack = [] := by
  constructor
  · intro h
    rw [target.eq_def] at h
    split at h
    · rfl
    · split at h
      · split at h <;> cases h
      · cases h
      · cases h
  · rintro rfl
    rfl

/-- A configuration fails for an empty stack iff its next step applies a primitive and there
    are no operands. -/
theorem halts_emptyStack_iff :
    (∃ s, c.next limit = .halted (.error (.evaluation .emptyStack)) s) ↔
      c.current.stack = [] ∧ ∃ rest, c.current.rest = .morphism .apply :: rest := by
  constructor
  · rintro ⟨s, h⟩
    rcases Config.fails_of_halted h with ⟨step, rest, hr, hf⟩ | ⟨hnone, -⟩
    · generalize hfailure : Failure.evaluation .emptyStack = failure at hf
      cases hf with
      | target ht =>
        cases EvalError.eq_of_raised hfailure.symm
        exact ⟨target_eq_emptyStack_iff.1 ht, rest, hr⟩
      | nesting _ _ he => cases eq_tooDeep_of_enter (hfailure ▸ he)
      | operands | primitive | condOperands | notAStep =>
        cases EvalError.eq_of_raised hfailure.symm
    · cases hnone
  · rintro ⟨hs, rest, hr⟩
    have hfails : Config.Fails limit c.ticked (.morphism .apply) EvalError.emptyStack.raised :=
      .target (target_eq_emptyStack_iff.2 hs)
    exact ⟨_, Config.next_of_transition (.failed hr hfails)⟩

/-- A reason that is found on an empty stack, whenever the steps are of a certain form,
    is what a run fails for iff it enters a derivation of that form. -/
theorem fails_iff_enters {reason : EvalError} {P : List Value → Prop} (limit : Value)
    (steps : List Value) (session : Session Event)
    (hhalts : ∀ c, (∃ s, Config.next limit c = .halted (.error (.evaluation reason)) s) ↔
      c.current.stack = [] ∧ P c.current.rest)
    (hreason : ∀ depth, reason ≠ .tooDeep depth limit) :
    (runDerivation limit steps session).1 = .error (.evaluation reason) ↔
      ∃ inner, P inner ∧ Enters limit steps session inner := by
  constructor
  · intro h
    rcases runDerivation_cases limit steps session with ⟨failure, he, hfailure⟩ | ⟨he, d, hd, hn⟩
    · cases h.symm.trans hfailure
      exact absurd (eq_tooDeep_of_enter he) (hreason 0)
    · rw [h] at hn
      obtain ⟨hs, hP⟩ := (hhalts d).1 ⟨_, hn⟩
      obtain ⟨inner, hin, hcurrent⟩ := start_of_empty he hd hs
      rw [hcurrent] at hP
      exact ⟨inner, hP, hin⟩
  · rintro ⟨inner, hP, hin⟩
    obtain ⟨he, c, hc, hcurrent⟩ := exists_of_enters hin
    obtain ⟨s, hn⟩ := (hhalts c).2 ⟨by rw [hcurrent]; rfl, by rw [hcurrent]; exact hP⟩
    rw [runDerivation, he]
    dsimp only
    rw [run_of_comesTo hc, run_of_halted hn]

/-! ## Calls of the evaluator -/

namespace Evaluator

/-- Once it has begun, no derivation runs dry. In a call that is made while the guard is
    free, every transition leaves something on the stack of the derivation it goes on
    with, unless it enters a branch, of which no step has been executed. So a call fails
    for the lack of a result iff it enters a derivation without steps, and for an
    application on an empty stack iff it enters one that begins with an application. -/
theorem never_runs_dry {e : Evaluator} {derivation : Value} {steps : List Value}
    (hf : e.shell.inFlight = false) (hi : derivation.items? = .ok steps) :
    (∀ c d, enter e.limit 0 = .ok () → ComesTo e.limit ⟨.start steps, [], e.opening steps⟩ c →
      c.next e.limit = .running d →
      d.current.stack ≠ [] ∨ ∃ inner, Enters e.limit steps (e.opening steps) inner ∧
        d.current = .start inner ∧ d.depth = c.depth + 1) ∧
    ((e.evaluate derivation).outcome = .error (.evaluation .noResult) ↔
      Enters e.limit steps (e.opening steps) []) ∧
    ((e.evaluate derivation).outcome = .error (.evaluation .emptyStack) ↔
      ∃ rest, Enters e.limit steps (e.opening steps) (.morphism .apply :: rest)) := by
  refine ⟨fun c d he hc hn => stack_of_comesTo he hc hn, ?_, ?_⟩
  · have hfails := fails_iff_enters (P := fun inner => inner = []) e.limit steps
      (e.opening steps) (fun _ => halts_noResult_iff) fun _ => nofun
    rw [(evaluate_of_steps hf hi).1, hfails, exists_eq_left]
  · have hfails := fails_iff_enters (P := fun inner => ∃ rest, inner = .morphism .apply :: rest)
      e.limit steps (e.opening steps) (fun _ => halts_emptyStack_iff) fun _ => nofun
    rw [(evaluate_of_steps hf hi).1, hfails]
    constructor
    · rintro ⟨_, ⟨rest, rfl⟩, hin⟩
      exact ⟨rest, hin⟩
    · rintro ⟨rest, hin⟩
      exact ⟨_, ⟨rest, rfl⟩, hin⟩

/-- A conditional that chooses a given branch. -/
def choosing (inner : List Value) : List Value :=
  [.literal (.bool true), .sub inner, .literal .null, .morphism .cond]

theorem enters_choosing (inner : List Value) :
    Enters (.int 1) (choosing inner) ((new .null (.int 1)).opening (choosing inner)) inner := by
  obtain ⟨s, hadvance⟩ : ∃ s, advance (.int 1) 0 3
      ⟨.start (choosing inner), [], (new .null (.int 1)).opening (choosing inner)⟩ =
    .running ⟨⟨[.morphism .cond], [.null, .sub inner, .bool true], none⟩, [], s⟩ := ⟨_, rfl⟩
  exact .branch (enter_int_eq_ok.2 (by decide)) (comesTo_of_advance hadvance) rfl rfl rfl
    (enter_int_eq_ok.2 (Int.le_refl 1))

/-- A branch without steps has no result, and one that begins with an application no
    operands. -/
theorem never_runs_dry_of_choosing :
    ((new .null (.int 1)).evaluate (.list (choosing []))).outcome =
        .error (.evaluation .noResult) ∧
      ((new .null (.int 1)).evaluate
          (.list (choosing [.morphism .apply, .literal .null]))).outcome =
        .error (.evaluation .emptyStack) := by
  have hi (steps : List Value) : (Value.list steps).items? = .ok steps := rfl
  exact ⟨(never_runs_dry (e := new .null (.int 1)) rfl (hi _)).2.1.2 (enters_choosing []),
    (never_runs_dry (e := new .null (.int 1)) rfl (hi _)).2.2.2 ⟨_, enters_choosing _⟩⟩

end Evaluator

end Heptad.Stack
