import Heptad.Proofs.Reflex.Debug
import Heptad.Proofs.Stack.Debug

/-!
# Debugging is transparent

Debugging is there to be looked at. Evaluators and loops that are made with another flag
do the same and remember the same; and what they write, if anything, are the events that
they put on record. There is one exception. What is written has to be put in words, and
an integer of too many digits cannot be: a call of a stack evaluator that puts one on
record fails with debugging, where it goes on without.

* `debugging_is_transparent`: whatever is done with an evaluator or a loop;
* `debugging_of_huge`: a call that fails with debugging only.
-/

namespace Heptad

/-- An evaluator whose flag is what it is switched to. -/
theorem Stack.Evaluator.withDebug_self {e : Stack.Evaluator} {debug : Bool}
    (h : e.shell.tracer.debug = debug) : e.withDebug debug = e := by
  rw [← h]
  rfl

/-- Operations on stack evaluators that were made alike but for the flag, if this is the
    same or all that is on record afterwards has a text. -/
theorem Stack.Evaluator.call_new_switched (debug debug' limit : Value)
    (ops : List Stack.Evaluator.Operation) (op : Stack.Evaluator.Operation)
    (h : debugOn debug = debugOn debug' ∨
      (Stack.Evaluator.new debug limit).RecordsTexts (ops ++ [op])) :
    Call.Switched (fun e : Stack.Evaluator => e.withDebug (debugOn debug'))
      (op.call ((Stack.Evaluator.new debug limit).runAll ops))
      (op.call ((Stack.Evaluator.new debug' limit).runAll ops)) := by
  rcases h with heq | h
  · have hnew : Stack.Evaluator.new debug' limit =
      (Stack.Evaluator.new debug limit).withDebug (debugOn debug') := rfl
    rw [hnew, withDebug_self heq]
    refine ⟨rfl, (withDebug_self ?_).symm⟩
    rw [op.after_call, ← runAll_concat, ← heq]
    exact ((Stack.Evaluator.new debug limit).keeps_runAll (ops ++ [op])).debug
  · have hswitched (flag : Value) := call_runAll_switched (debugOn flag) h
    exact ⟨(hswitched debug').outcome.trans (hswitched debug).outcome.symm,
      (hswitched debug').after.trans
        (congrArg (fun e => e.withDebug (debugOn debug')) (hswitched debug).after).symm⟩

/-- Debugging is transparent, unless what it shows cannot be put in words. Take two stack
    evaluators, field evaluators or loops that were made alike but for the flag, and carry
    out the same operations on both. The next operation gives the same on both, or the
    same failure, and leaves them in states that differ by the flag only (`withDebug`):
    counts, warnings, traces, field, history and agent state are the same. Of stack
    evaluators this holds if all that is then on record without debugging has a text. A
    call that puts something else on record fails with debugging, once it has described
    what comes before.

    An operation writes nothing on the first if debugging is off there. Else each line
    begins with the name of what writes it (`written`). For an evaluator the lines are
    those of the events it puts on record, in order and as far as they can be described,
    between notes (`report`), however the operation ends. A loop writes notes of its own,
    and between them its processor writes in this way about the work it is handed. -/
theorem debugging_is_transparent (debug debug' : Value) :
    (∀ (limit : Value) (ops : List Stack.Evaluator.Operation) (op : Stack.Evaluator.Operation)
      (e e' : Stack.Evaluator), e = (Stack.Evaluator.new debug limit).runAll ops →
      e' = (Stack.Evaluator.new debug' limit).runAll ops →
      (debugOn debug = debugOn debug' ∨
          (Stack.Evaluator.new debug limit).RecordsTexts (ops ++ [op]) →
        Call.Switched (fun e : Stack.Evaluator => e.withDebug (debugOn debug'))
          (op.call e) (op.call e')) ∧
      (∀ derivation, op = .evaluate derivation → e.shell.inFlight = false →
        debugOn debug = true → ¬ (Stack.Evaluator.new debug limit).RecordsTexts (ops ++ [op]) →
        (e.evaluate derivation).outcome = .error (.fault .tooManyDigits) ∧
          ∀ event ∈ (e.seen derivation).events.dropLast, event.isShowable = true) ∧
      (debugOn debug = false → (op.call e).lines = []) ∧
      (op.call e).lines = written (debugOn debug) Stack.Evaluator.name (op.report e)) ∧
    (∀ (field history : Value) (choice : Field.TableChoice),
      Field.Evaluator.new debug' field history choice =
        (Field.Evaluator.new debug field history choice).map
          (fun e => e.withDebug (debugOn debug')) ∧
      ∀ fresh fresh' : Field.Evaluator,
        Field.Evaluator.new debug field history choice = .ok fresh →
        Field.Evaluator.new debug' field history choice = .ok fresh' →
        ∀ (ops : List Field.Evaluator.Operation) (op : Field.Evaluator.Operation)
          (e e' : Field.Evaluator), e = fresh.runAll ops → e' = fresh'.runAll ops →
          Call.Switched (fun e : Field.Evaluator => e.withDebug (debugOn debug'))
            (op.call e) (op.call e') ∧
          (debugOn debug = false → (op.call e).lines = []) ∧
          (op.call e).lines = written (debugOn debug) Field.Evaluator.name (op.report e)) ∧
    ∀ (agentId : String) (surroundings : Reflex.Surroundings)
      (agentState : List (Value × Value)) (ops : List Reflex.Loop.Operation)
      (op : Reflex.Loop.Operation) (l l' : Reflex.Loop),
      l = (Reflex.Loop.new agentId surroundings agentState debug).runAll ops →
      l' = (Reflex.Loop.new agentId surroundings agentState debug').runAll ops →
      Call.Switched (fun l : Reflex.Loop => l.withDebug debug') (op.call l) (op.call l') ∧
      (debugOn debug = false → (op.call l).lines = []) ∧
      ∃ before after, (op.call l).lines =
        written (debugOn debug) Reflex.Loop.name before ++ l.spoken debug (l.work? op) ++
          written (debugOn debug) Reflex.Loop.name after := by
  refine ⟨?_, fun field history choice => ⟨Field.Evaluator.new_withDebug _ _ _ _ _, ?_⟩, ?_⟩
  · rintro limit ops op e e' rfl rfl
    have hlines := Stack.Evaluator.lines_call_runAll debug limit ops op
    refine ⟨Stack.Evaluator.call_new_switched debug debug' limit ops op, ?_,
      fun hoff => hlines.trans (written_of_off hoff _ _), hlines⟩
    rintro derivation rfl hfree hon hnot
    exact Stack.Evaluator.evaluate_of_not_recordsTexts hfree hon hnot
  · rintro fresh fresh' h h' ops op e e' rfl rfl
    have hlines := ((Field.Evaluator.named_new h).runAll ops).lines_call op
    refine ⟨?_, fun hoff => hlines.trans (written_of_off hoff _ _), hlines⟩
    have hnew : fresh' = fresh.withDebug (debugOn debug') := by
      rw [Field.Evaluator.new_withDebug debug, h] at h'
      exact (Except.ok.inj h').symm
    rw [hnew, Field.Evaluator.runAll_withDebug]
    exact Field.Evaluator.call_switched _ _ op
  · rintro agentId surroundings agentState ops op l l' rfl rfl
    have hnamed := (Reflex.Loop.named_new agentId surroundings agentState debug).runAll ops
    refine ⟨?_, fun hoff => hnamed.lines_of_off hoff op, (hnamed.call op).lines⟩
    have hnew : Reflex.Loop.new agentId surroundings agentState debug' =
      (Reflex.Loop.new agentId surroundings agentState debug).withDebug debug' := rfl
    rw [hnew, Reflex.Loop.runAll_withDebug]
    exact Reflex.Loop.call_switched _ _ op

/-- A call that fails in its third step, a call with a text among the steps after one that
    was accepted, and a cycle after one that made the loop replace its processor. -/
theorem debugging_is_transparent_of_failed_calls :
    ((Stack.Evaluator.new (.bool true) (.int 5)).evaluate
        (.list [.literal (.int 1), .literal (.str "multiply"), .morphism .apply])).lines =
      ["[StackEvaluator] Evaluating derivation (3 steps)...\n",
        "[StackEvaluator] Step 1: literal (value=1, depth=0)\n",
        "[StackEvaluator] Step 2: literal (value='multiply', depth=0)\n"] ∧
    (∃ e e' : Field.Evaluator,
      Field.Evaluator.new (.bool true) .null (.list [.int 2, .morphism .apply]) .standard = .ok e ∧
      Field.Evaluator.new .null .null (.list [.int 2, .morphism .apply]) .standard = .ok e' ∧
      ((e'.runAll [.evaluate (.tuple [.int 4])]).evaluate (.list [.int 4, .str "@"])).outcome =
        ((e.runAll [.evaluate (.tuple [.int 4])]).evaluate (.list [.int 4, .str "@"])).outcome) ∧
    ∃ l l' : Reflex.Loop,
      l = (Reflex.Loop.new "agent" ⟨Reflex.queue [⟨"first", .list [.str "@"], .null⟩,
          ⟨"second", .list [.int 2], .null⟩], Reflex.steady "now", none⟩ []
        (.bool true)).runAll [.run] ∧
      l' = (Reflex.Loop.new "agent" ⟨Reflex.queue [⟨"first", .list [.str "@"], .null⟩,
          ⟨"second", .list [.int 2], .null⟩], Reflex.steady "now", none⟩ [] .null).runAll [.run] ∧
      l'.run.after = l.run.after.withDebug .null := by
  obtain ⟨hstack, hfield, hloop⟩ := debugging_is_transparent (.bool true) .null
  refine ⟨?_, ?_, ?_⟩
  · refine (hstack (.int 5) [] (.evaluate _) _ _ rfl rfl).2.2.2.trans ?_
    decide +kernel
  · obtain ⟨-, hmade⟩ := hfield .null (.list [.int 2, .morphism .apply]) .standard
    obtain ⟨hswitched, -⟩ := hmade _ _ rfl rfl [.evaluate (.tuple [.int 4])]
      (.evaluate (.list [.int 4, .str "@"])) _ _ rfl rfl
    exact ⟨_, _, rfl, rfl, hswitched.outcome⟩
  · exact ⟨_, _, rfl, rfl, (hloop _ _ _ _ .run _ _ rfl rfl).1.after⟩

/-- A call that returns without debugging and fails with it. -/
theorem debugging_of_huge :
    ((Stack.Evaluator.new .null .null).evaluate (.list [.literal .huge])).outcome = .ok .huge ∧
      ((Stack.Evaluator.new (.bool true) .null).evaluate (.list [.literal .huge])).outcome =
        .error (.fault .tooManyDigits) := by
  have henter (debug : Value) : Stack.enter (Stack.Evaluator.new debug .null).limit 0 = .ok () :=
    Stack.enter_int_eq_ok.2 (by decide)
  constructor
  · have hreturns (v : Value) :
        ((Stack.Evaluator.new .null .null).evaluate (.list [.literal v])).outcome = .ok v := by
      have hsteps := (Stack.Evaluator.runSteps_of_enter (henter .null) [.literal v]).trans
        ((Stack.runSteps_of_pushes (.literal v) (Tracer.admits_of_off rfl _) [] [] none).trans
          (Stack.runSteps_of_atEnd _ ⟨rfl, rfl⟩))
      exact (Stack.Evaluator.evaluate_of_end rfl rfl hsteps rfl rfl).1
    exact hreturns .huge
  · have hfails {s : Session Stack.Event} (hs : s.tracer.debug = true) :
        ∃ t, Stack.runSteps (Stack.Evaluator.new (.bool true) .null).limit 0
            ⟨.start [.literal .huge], [], s⟩ = .halted (.error (.fault .tooManyDigits)) t :=
      Stack.runSteps_of_undescribed (.literal _) (by exact Stack.not_admits_huge hs _ _) _ _ _
    obtain ⟨t, hhalted⟩ := hfails (s := (Stack.Evaluator.new (.bool true) .null).opening
      [.literal .huge]) rfl
    have hsteps := (Stack.Evaluator.runSteps_of_enter (henter (.bool true)) _).trans hhalted
    have hfree : (Stack.Evaluator.new (.bool true) .null).shell.inFlight = false := rfl
    have hcall := (Stack.Evaluator.evaluate_of_runSteps hfree
      (rfl : (Value.list [.literal .huge]).items? = .ok [.literal .huge])).1
    rw [hsteps] at hcall
    exact hcall

end Heptad
