import Heptad.Proofs.Field.Debug
import Heptad.Proofs.Reflex.Replay

/-!
# Switching the debugging of a loop

A loop hands its flag on to its processor, and to the one this is replaced by. It puts
nothing on record itself: what it writes are notes, and between them what its processor
does, which gets at most one derivation from an operation.

* `Operation.call`: what an operation gives and writes, and what it leaves;
* `call_switched`, `runAll_withDebug`: switching makes no other difference, since this
  is so for each part of a cycle, and for calls one after the other;
* `Notes`, `Speaks`: what a part of a cycle can write, and rules to put parts together;
* `Named.call`: so what an operation writes are notes, and the report of the processor
  on the work it is handed.
-/

namespace Heptad

namespace Reflex

namespace Loop

/-- A loop with debugging switched, and with it that of its processor. -/
def withDebug (l : Loop) (flag : Value) : Loop :=
  { l with
    debug := flag
    processor := l.processor.withDebug (debugOn flag)
    tracer := l.tracer.withDebug (debugOn flag) }

/-- What an operation gives. -/
def Operation.Result : Operation → Type
  | run => Outcome
  | observe => Observation
  | evaluate _ => String
  | act _ _ => Option Field
  | learn _ _ => Option Morphism
  | lock => Bool

/-- An operation carried out. -/
def Operation.call (l : Loop) : (op : Operation) → Call Loop op.Result
  | run => l.run
  | observe => l.observe
  | evaluate o => l.evaluate o
  | act o action => l.act o action
  | learn o field => l.learn o field
  | lock => l.lock

theorem Operation.after_call (l : Loop) (op : Operation) : (op.call l).after = op.apply l := by
  cases op <;> rfl

/-! ## The switch -/

section

variable (l : Loop) (flag : Value)

/-- Calls of a loop that differ by the switch only. -/
abbrev Switched {α : Type} (c c' : Call Loop α) : Prop :=
  Call.Switched (fun l : Loop => l.withDebug flag) c c'

theorem note_switched (message : String) :
    Switched flag (l.note message) ((l.withDebug flag).note message) := ⟨rfl, rfl⟩

theorem noteShown_switched (showable : Bool) (message : String) :
    Switched flag (l.noteShown showable message)
      ((l.withDebug flag).noteShown showable message) := by
  rw [noteShown, noteShown]
  split
  · exact l.note_switched flag message
  · exact ⟨rfl, rfl⟩

theorem give_switched {α : Type} (outcome : Except Failure α) :
    Switched flag (l.give outcome) ((l.withDebug flag).give outcome) := ⟨rfl, rfl⟩

theorem observe_switched : Switched flag l.observe (l.withDebug flag).observe :=
  (l.note_switched flag _).andThen fun _ _ => ⟨rfl, rfl⟩

theorem evaluate_switched (o : Observation) :
    Switched flag (l.evaluate o) ((l.withDebug flag).evaluate o) :=
  (l.note_switched flag _).andThen fun _ l => l.give_switched flag _

/-- A processor that is replaced passes the flag on. -/
theorem process_switched (derivation : Value) :
    Switched flag (l.process derivation) ((l.withDebug flag).process derivation) := by
  have h := l.processor.evaluate_switched (debugOn flag) derivation
  have houtcome : ((l.withDebug flag).processor.evaluate derivation).outcome =
    (l.processor.evaluate derivation).outcome := h.outcome
  rw [process, process, houtcome]
  cases (l.processor.evaluate derivation).outcome with
  | ok field =>
    exact ⟨rfl, congrArg (fun p => { l.withDebug flag with processor := p }) h.after⟩
  | error failure =>
    cases failure with
    | evaluation reason => exact ⟨rfl, rfl⟩
    | fault f =>
      exact ⟨rfl, congrArg (fun p => { l.withDebug flag with processor := p }) h.after⟩

theorem tell_switched (o : Observation) (field : Field) :
    Switched flag (l.tell o field) ((l.withDebug flag).tell o field) := by
  have hsurroundings : (l.withDebug flag).surroundings = l.surroundings := rfl
  rw [tell.eq_def, tell.eq_def, hsurroundings]
  split <;> exact ⟨rfl, rfl⟩

theorem act_switched (o : Observation) (action : String) :
    Switched flag (l.act o action) ((l.withDebug flag).act o action) := by
  refine (l.note_switched flag _).andThen fun _ l => ?_
  split
  · exact l.give_switched flag _
  · exact (l.give_switched flag _).andThen fun steps l =>
      (l.noteShown_switched flag _ _).andThen fun _ l =>
        (l.process_switched flag o.derivation).andThen fun field l =>
          (l.tell_switched flag o field).andThen fun _ l => l.give_switched flag _

theorem readClock_switched : Switched flag l.readClock (l.withDebug flag).readClock := ⟨rfl, rfl⟩

theorem learn_switched (o : Observation) (field : Value) :
    Switched flag (l.learn o field) ((l.withDebug flag).learn o field) := by
  refine (l.note_switched flag _).andThen fun _ l => ?_
  refine (l.readClock_switched flag).andThen fun _ l => ?_
  split
  · exact ⟨rfl, rfl⟩
  · exact (l.give_switched flag _).andThen fun lesson l =>
      (noteShown_switched _ flag _ _).andThen fun _ l => l.give_switched flag _

theorem run_switched : Switched flag l.run (l.withDebug flag).run :=
  (l.observe_switched flag).andThen fun o l =>
    (l.evaluate_switched flag o).andThen fun action l =>
      (l.act_switched flag o action).andThen fun _ l =>
        (l.learn_switched flag o _).andThen fun _ l =>
          (note_switched { l with iterations := l.iterations + 1 } flag _).andThen fun _ l =>
            l.give_switched flag _

/-- No operation gives anything else for the switch. -/
theorem call_switched (op : Operation) :
    Switched flag (op.call l) (op.call (l.withDebug flag)) := by
  cases op with
  | run => exact l.run_switched flag
  | observe => exact l.observe_switched flag
  | evaluate o => exact l.evaluate_switched flag o
  | act o action => exact l.act_switched flag o action
  | learn o field => exact l.learn_switched flag o field
  | lock =>
    rw [Operation.call, Operation.call, lock, lock]
    exact (l.processor.call_switched (debugOn flag) .lock).lift fun _ => rfl

/-- No sequence of operations leaves anything else for the switch. -/
theorem runAll_withDebug (ops : List Operation) :
    (l.withDebug flag).runAll ops = (l.runAll ops).withDebug flag := by
  rw [runAll, runAll]
  refine List.foldl_hom (fun l : Loop => l.withDebug flag) fun l op => ?_
  rw [← op.after_call, ← op.after_call]
  exact (l.call_switched flag op).after

end

/-! ## What is written -/

/-- The name a loop writes under. -/
def name : String := "ReflexLoop"

/-- What lines depend on. A loop and its processor write under their names, and both do
    iff the flag says so. A loop puts nothing on record itself. -/
structure Named (flag : Value) (l : Loop) : Prop where
  tracer : l.tracer = .new name flag
  debug : l.debug = flag
  processor : l.processor.Named (debugOn flag)

/-- A call in which nothing is written but notes of the loop. -/
structure Notes {α : Type} (flag : Value) (c : Call Loop α) : Prop where
  lines : ∃ notes, c.lines = written (debugOn flag) name notes
  named : Named flag c.after

/-- A call in which the processor writes as well, some lines between notes of the loop. -/
structure Speaks {α : Type} (flag : Value) (spoken : List String) (c : Call Loop α) : Prop where
  lines : ∃ before after, c.lines =
    written (debugOn flag) name before ++ spoken ++ written (debugOn flag) name after
  named : Named flag c.after

section

variable {α β : Type} {flag : Value} {middle : List String} {l : Loop} {c : Call Loop α}
  {next : α → Loop → Call Loop β}

/-! ### Rules -/

theorem Notes.andThen (h : Notes flag c) (hnext : ∀ a l, Named flag l → Notes flag (next a l)) :
    Notes flag (c.andThen next) := by
  cases ho : c.outcome with
  | error failure =>
    rw [Call.andThen_of_error ho]
    exact ⟨h.lines, h.named⟩
  | ok a =>
    obtain ⟨notes, hlines⟩ := h.lines
    obtain ⟨notes', hlines'⟩ := (hnext a c.after h.named).lines
    refine ⟨⟨notes ++ notes', ?_⟩, ?_⟩
    · rw [Call.lines_andThen_of_ok ho, hlines, hlines', written_append]
    · rw [Call.after_andThen_of_ok ho]
      exact (hnext a c.after h.named).named

/-- Without the processor there is nothing between the notes. -/
theorem Notes.speaks (h : Notes flag c) : Speaks flag [] c := by
  obtain ⟨notes, hlines⟩ := h.lines
  refine ⟨⟨notes, [], ?_⟩, h.named⟩
  rw [hlines, written_nil, List.append_nil, List.append_nil]

/-- Notes come before what is said in the rest of a call, if there is a rest. -/
theorem Notes.andThen_speaks {a : α} (h : Notes flag c) (ho : c.outcome = .ok a)
    (hnext : Speaks flag middle (next a c.after)) : Speaks flag middle (c.andThen next) := by
  obtain ⟨notes, hlines⟩ := h.lines
  obtain ⟨before, after, hlines'⟩ := hnext.lines
  refine ⟨⟨notes ++ before, after, ?_⟩, ?_⟩
  · rw [Call.lines_andThen_of_ok ho, hlines, hlines', written_append, List.append_assoc,
      List.append_assoc, List.append_assoc]
  · rw [Call.after_andThen_of_ok ho]
    exact hnext.named

/-- Notes come after what was said. -/
theorem Speaks.andThen (h : Speaks flag middle c)
    (hnext : ∀ a l, Named flag l → Notes flag (next a l)) :
    Speaks flag middle (c.andThen next) := by
  cases ho : c.outcome with
  | error failure =>
    rw [Call.andThen_of_error ho]
    exact ⟨h.lines, h.named⟩
  | ok a =>
    obtain ⟨before, after, hlines⟩ := h.lines
    obtain ⟨notes, hlines'⟩ := (hnext a c.after h.named).lines
    refine ⟨⟨before, after ++ notes, ?_⟩, ?_⟩
    · rw [Call.lines_andThen_of_ok ho, hlines, hlines', written_append, List.append_assoc _ _
        (written _ _ notes)]
    · rw [Call.after_andThen_of_ok ho]
      exact (hnext a c.after h.named).named

/-! ### Parts of a cycle -/

/-- Nothing else that a loop keeps makes a difference. -/
theorem Named.aside (h : Named flag l) (agentState : List (Value × Value))
    (iterations observed readings : Nat) (told : List (Observation × Field)) :
    Named flag { l with agentState, iterations, observed, readings, told } :=
  ⟨h.tracer, h.debug, h.processor⟩

theorem Named.note (h : Named flag l) (message : String) : Notes flag (l.note message) := by
  refine ⟨⟨[message], ?_⟩, h⟩
  rw [Loop.note, h.tracer]
  rfl

/-- A call that writes nothing. -/
theorem Notes.silent (h : Named flag l) (outcome : Except Failure α) :
    Notes flag (Call.mk outcome [] l) := ⟨⟨[], (written_nil _ _).symm⟩, h⟩

theorem Named.noteShown (h : Named flag l) (showable : Bool) (message : String) :
    Notes flag (l.noteShown showable message) := by
  rw [Loop.noteShown]
  split
  · exact h.note message
  · exact .silent h _

theorem Named.give (h : Named flag l) (outcome : Except Failure α) : Notes flag (l.give outcome) :=
  .silent h outcome

theorem Named.observe (h : Named flag l) : Notes flag l.observe :=
  (h.note _).andThen fun _ _ h => .silent (h.aside _ _ _ _ _) _

theorem Named.evaluate (h : Named flag l) (o : Observation) : Notes flag (l.evaluate o) :=
  (h.note _).andThen fun _ _ h => h.give _

/-- The processor says what there is to say, whether it is replaced then or not. -/
theorem Named.process (h : Named flag l) (derivation : Value) :
    Speaks flag (written (debugOn flag) Field.Evaluator.name (l.processor.report derivation))
      (l.process derivation) := by
  have hprocessor := h.processor.evaluate derivation
  refine ⟨⟨[], [], ?_⟩, ?_⟩
  · have hlines : (l.process derivation).lines = (l.processor.evaluate derivation).lines := by
      rw [Loop.process]
      split <;> rfl
    rw [hlines, written_nil, List.nil_append, List.append_nil]
    exact h.processor.lines_call (.evaluate derivation)
  · rw [Loop.process]
    split
    · refine ⟨h.tracer, h.debug, rfl, ?_⟩
      exact congrArg debugOn h.debug
    · exact ⟨h.tracer, h.debug, hprocessor⟩

theorem Named.tell (h : Named flag l) (o : Observation) (field : Field) :
    Notes flag (l.tell o field) := by
  rw [tell.eq_def]
  split
  · exact h.give _
  · exact h.give _
  · exact .silent (h.aside _ _ _ _ _) _

/-- What the processor says about some work, if there is any. -/
def spoken (flag : Value) (l : Loop) (work : Option Value) : List String :=
  work.elim [] fun derivation =>
    written (debugOn flag) Field.Evaluator.name (l.processor.report derivation)

theorem Named.act (h : Named flag l) (o : Observation) (action : String) :
    Speaks flag (l.spoken flag (o.work? action)) (l.act o action) := by
  refine (h.note _).andThen_speaks rfl ?_
  by_cases ha : action = processAction
  · rw [if_neg (not_not.2 ha), Observation.work?, if_pos ha]
    cases hi : o.derivation.items? with
    | error f =>
      rw [Call.andThen_of_error rfl]
      exact (h.give _).speaks
    | ok steps =>
      refine (h.give _).andThen_speaks rfl ?_
      dsimp only
      cases Value.areShowable steps with
      | false =>
        rw [Call.andThen_of_error rfl]
        exact (Notes.silent h _).speaks
      | true =>
        refine (h.noteShown true _).andThen_speaks rfl ?_
        exact (h.process _).andThen fun field _ h =>
          (h.tell o field).andThen fun _ _ h => h.give _
  · rw [if_pos ha, Observation.work?, if_neg ha]
    exact (h.give _).speaks

theorem Named.readClock (h : Named flag l) : Notes flag l.readClock := .silent (h.aside _ _ _ _ _) _

theorem Named.learn (h : Named flag l) (o : Observation) (field : Value) :
    Notes flag (l.learn o field) := by
  refine (h.note _).andThen fun _ _ h => h.readClock.andThen fun time l h => ?_
  split
  · exact .silent (h.aside _ _ _ _ _) _
  · exact (h.give _).andThen fun lesson l h =>
      ((h.aside _ _ _ _ _).noteShown _ _).andThen fun _ _ h => h.give _

/-- A cycle hands the processor the work it observes, unless observing fails. -/
theorem Named.run (h : Named flag l) : Speaks flag (l.spoken flag (l.work? .run)) l.run := by
  rw [work?, Loop.run]
  cases ho : l.surroundings.observer l.observed with
  | error failure =>
    have hobserve : l.observe.outcome = .error failure := ho
    rw [Call.andThen_of_error hobserve]
    exact Notes.speaks ⟨h.observe.lines, h.observe.named⟩
  | ok o =>
    have hobserve : l.observe.outcome = .ok o := ho
    refine h.observe.andThen_speaks hobserve ?_
    refine (h.observe.named.evaluate o).andThen_speaks rfl ?_
    exact ((h.observe.named.evaluate o).named.act o _).andThen fun field _ h =>
      (h.learn o _).andThen fun _ l h =>
        ((h.aside _ _ _ _ _).note _).andThen fun _ _ h => h.give _

/-! ## Operations -/

/-- An operation hands the processor some work, or it does not. -/
theorem Named.call (h : Named flag l) (op : Operation) :
    Speaks flag (l.spoken flag (l.work? op)) (op.call l) := by
  cases op with
  | run => exact h.run
  | observe => exact h.observe.speaks
  | evaluate o => exact (h.evaluate o).speaks
  | act o action => exact h.act o action
  | learn o field => exact (h.learn o field).speaks
  | lock =>
    exact Notes.speaks ⟨⟨[], (written_nil _ _).symm⟩, h.tracer, h.debug, h.processor.apply .lock⟩

/-- Without debugging nothing is written, by the loop or its processor. -/
theorem Named.lines_of_off (h : Named flag l) (hoff : debugOn flag = false) (op : Operation) :
    (op.call l).lines = [] := by
  obtain ⟨before, after, hlines⟩ := (h.call op).lines
  rw [hlines, spoken, written_of_off hoff, written_of_off hoff]
  cases l.work? op with
  | none => rfl
  | some derivation => exact congrArg (· ++ []) (written_of_off hoff _ _)

theorem named_new (agentId : String) (surroundings : Surroundings)
    (agentState : List (Value × Value)) (flag : Value) :
    Named flag (Loop.new agentId surroundings agentState flag) := ⟨rfl, rfl, rfl, rfl⟩

/-- No sequence of operations changes the names, or whether there is debugging. -/
theorem Named.runAll (h : Named flag l) (ops : List Operation) : Named flag (l.runAll ops) := by
  induction ops generalizing l with
  | nil => exact h
  | cons op ops ih =>
    have hop : Named flag (op.apply l) := op.after_call l ▸ (h.call op).named
    exact ih hop

end

end Loop

end Reflex

end Heptad
