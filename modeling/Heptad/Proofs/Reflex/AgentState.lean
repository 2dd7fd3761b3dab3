import Heptad.Proofs.Field.Dominant
import Heptad.Proofs.Reflex.Atomicity

/-!
# The agent's state after any number of cycles

What the agent knows after some cycles, completed or failed in any order, is what
it knew before with at most four entries written: when the latest completed cycle
was, and what the latest completed cycle with any work had to teach. These three
entries, the field, its dominant morphism and the hash of the derivation, come from
one cycle; a cycle without work, or one that fails, leaves them alone.

* `Completed`, `Loop.completed`: the completed ones of some cycles, in order;
* `Lesson`: what a completed cycle with work teaches;
* `Runs.writes`: what one cycle writes;
* `Reports`: the four entries, told from the completed cycles;
* `Runs.restShowable`: no cycle touches the other entries, which have to have a text if
  there is work to complete;
* `Loop.agentState_cycles`: nothing else is written by any number of cycles;
* `Loop.agentState_of_huge`: unless one of them fails to show what it has written.
-/

namespace Heptad

namespace Reflex

/-- A completed cycle: the number of the reading it took of the clock, and what it
    returned. -/
structure Completed where
  reading : Nat
  outcome : Outcome

/-- Whether a cycle had any work to do. -/
def Outcome.HasWork (outcome : Outcome) : Prop := outcome.action = processAction

/-- What a completed cycle with work teaches: the field it led to, the morphism that
    dominates the field, and the hash of the derivation that it came from. -/
inductive Lesson (outcome : Outcome) : List (String × Value) → Prop
  | of_field {field : Field} {m : Morphism} {steps : List Value} {hash : String} :
      outcome.field = some field → outcome.dominant = some m → field.Dominates m →
      outcome.observation.derivation.items? = .ok steps → Derivation.hash steps = .ok hash →
      Lesson outcome [("last_dominant_morphism", .str m.symbol),
        ("tensor_field_state", field.toValue), ("derivation_hash", .str hash)]

/-- The latest of some completed cycles that had any work to do. -/
def Latest (cs : List Completed) (c : Completed) : Prop :=
  c.outcome.HasWork ∧ ∃ before after, cs = before ++ c :: after ∧
    ∀ c' ∈ after, ¬ c'.outcome.HasWork

/-- What is to be known after some completed cycles: when the latest of them was, and
    what the latest with work taught. -/
inductive Reports (clock : Answers String) (cs : List Completed) : List (String × Value) → Prop
  | nothing : cs = [] → Reports clock cs []
  | moment {c : Completed} {time : String} : cs.getLast? = some c →
      clock c.reading = .ok time → (∀ c' ∈ cs, ¬ c'.outcome.HasWork) →
      Reports clock cs [Loop.update time]
  | lesson {c worked : Completed} {time : String} {updates : List (String × Value)} :
      cs.getLast? = some c → clock c.reading = .ok time → Latest cs worked →
      Lesson worked.outcome updates → Reports clock cs (Loop.update time :: updates)

namespace Loop

/-- The loop after `n` cycles, however these ended. -/
def cycles (l : Loop) : Nat → Loop
  | 0 => l
  | n + 1 => (l.cycles n).run.after

/-- The cycle a loop is about to run, if it will be completed. -/
def completion (l : Loop) : List Completed :=
  match l.run.outcome with
  | .ok outcome => [⟨l.readings, outcome⟩]
  | .error _ => []

/-- The completed ones among the next `n` cycles, in order. -/
def completed (l : Loop) : Nat → List Completed
  | 0 => []
  | n + 1 => l.completed n ++ (l.cycles n).completion

/-! ## One cycle -/

variable {l l' : Loop} {o : Observation}

/-- Acting leads to a field iff there is work to do. -/
theorem Acts.hasWork {action : String} {field : Option Field}
    (h : Acts l o action (.ok field) l') :
    (action ≠ processAction ∧ field = none) ∨ (action = processAction ∧ ∃ f, field = some f) := by
  generalize hr : Except.ok field = outcome at h
  cases h with
  | idle ha => exact .inl ⟨ha, Except.ok.inj hr⟩
  | unreadable | unshown | refused => cases hr
  | evaluated ha _ _ _ ht =>
    obtain ⟨-, -, hf⟩ := map_eq_ok.1 hr.symm
    exact .inr ⟨ha, _, hf.symm⟩

/-- What a field teaches is a lesson of the cycle that led to it. -/
theorem lesson_of_teaches {time action : String} {field : Field} {dominant : Option Morphism}
    {updates : List (String × Value)} (h : Teaches time o field.toValue dominant updates) :
    ∃ rest, updates = update time :: rest ∧ Lesson ⟨o, action, some field, dominant⟩ rest := by
  rw [Field.toValue] at h
  cases h with
  | lesson _ hm hw hs hh =>
    cases hw
    exact ⟨_, rfl, .of_field rfl rfl (Field.dominates_of_dominant? hm) hs hh⟩

/-- What one cycle writes: nothing if it fails; the time, if it has no work; and else
    the time and its lesson. -/
theorem Runs.writes {outcome : Except Failure Outcome} (h : Runs l outcome l')
    (hrest : restShowable l.agentState = true) :
    (∃ failure, outcome = .error failure ∧ l'.agentState = l.agentState) ∨
      ∃ result time, outcome = .ok result ∧ l.surroundings.clock l.readings = .ok time ∧
        ((¬ result.HasWork ∧ l'.agentState = putAll l.agentState [update time]) ∨
          (result.HasWork ∧ ∃ updates, Lesson result updates ∧
            l'.agentState = putAll l.agentState (update time :: updates))) := by
  cases h with
  | unobserved => exact .inl ⟨_, rfl, rfl⟩
  | unacted _ ha => exact .inl ⟨_, rfl, ha.agentState.1⟩
  | unlearned _ ha hl =>
    rcases hl.agentState with ⟨_, -, hs⟩ | ⟨_, _, updates, -, hteach, hs, hends⟩
    · exact .inl ⟨_, rfl, hs.trans ha.agentState.1⟩
    · rw [hs, ha.agentState.1] at hends
      cases hends with
      | unshown hnot =>
        rw [hteach.isShowable_putAll, asked, hrest] at hnot
        cases hnot
  | @completed o field dominant acted learnt ho ha hl =>
    rcases hl.agentState with ⟨_, hfailed, -⟩ | ⟨time, taught, updates, ht, hteach, hs, hends⟩
    · cases hfailed
    · obtain rfl : taught = dominant := by cases hends <;> rfl
      rw [ha.surroundings.1, ha.surroundings.2] at ht
      rw [ha.agentState.1] at hs
      refine .inr ⟨_, time, rfl, ht, ?_⟩
      rcases ha.hasWork with ⟨hidle, rfl⟩ | ⟨hwork, f, rfl⟩
      · cases hteach with
        | moment => exact .inl ⟨hidle, hs⟩
        | lesson hf => exact absurd rfl hf
      · obtain ⟨rest, rfl, hlesson⟩ := lesson_of_teaches hteach
        exact .inr ⟨hwork, rest, hlesson, hs⟩

/-- What is taught is written under known keys. -/
theorem Teaches.keys {field : Value} {time : String} {dominant : Option Morphism}
    {updates : List (String × Value)} (h : Teaches time o field dominant updates) :
    updates.map Prod.fst <+: knownKeys := by
  cases h with
  | moment => exact ⟨_, rfl⟩
  | lesson => exact List.prefix_refl _

/-- Learning touches no other entries, however it ends. -/
theorem Learns.restShowable {field : Value} {outcome : Except Failure (Option Morphism)}
    (h : Learns l o field outcome l') :
    Reflex.restShowable l'.agentState = Reflex.restShowable l.agentState := by
  rcases h.agentState with ⟨_, -, hsame⟩ | ⟨_, _, _, -, hteach, hwritten, -⟩
  · rw [hsame]
  · rw [hwritten, restShowable_putAll hteach.keys.subset]

/-- A cycle touches no other entries, however it ends. -/
theorem Runs.restShowable {outcome : Except Failure Outcome} (h : Runs l outcome l') :
    Reflex.restShowable l'.agentState = Reflex.restShowable l.agentState := by
  cases h with
  | unobserved => rfl
  | unacted _ ha => rw [ha.agentState.1, asked]
  | unlearned _ ha hl => rw [hl.restShowable, ha.agentState.1, asked]
  | completed _ ha hl => exact hl.restShowable.trans (congrArg _ ha.agentState.1)

/-- A cycle with work is completed only if the other entries have a text. -/
theorem Runs.restShowable_of_work {outcome : Outcome} (h : Runs l (.ok outcome) l')
    (hwork : outcome.HasWork) : Reflex.restShowable l.agentState = true := by
  cases h with
  | completed _ ha hl =>
    rcases ha.hasWork with ⟨hidle, -⟩ | ⟨-, field, rfl⟩
    · exact absurd hwork hidle
    · rcases hl.agentState with ⟨_, hfailed, -⟩ | ⟨_, _, _, -, hteach, hs, hends⟩
      · cases hfailed
      · rw [hs, ha.agentState.1] at hends
        cases hends with
        | silent => cases hteach
        | shown hshown =>
          rw [hteach.isShowable_putAll] at hshown
          exact hshown

theorem restShowable_cycles (l : Loop) (n : Nat) :
    Reflex.restShowable (l.cycles n).agentState = Reflex.restShowable l.agentState := by
  induction n with
  | zero => rfl
  | succ n ih => exact (l.cycles n).runs.restShowable.trans ih

/-- Of some cycles, those with work are completed only if the other entries have a text. -/
theorem not_hasWork_of_completed {n : Nat} (h : Reflex.restShowable l.agentState = false) :
    ∀ c ∈ l.completed n, ¬ c.outcome.HasWork := by
  induction n with
  | zero => exact nofun
  | succ n ih =>
    refine List.forall_mem_append.2 ⟨ih, ?_⟩
    have hruns := (l.cycles n).runs
    rw [completion]
    split
    · rename_i outcome ho
      rw [ho] at hruns
      refine List.forall_mem_singleton.2 fun hwork => ?_
      have hshown := hruns.restShowable_of_work hwork
      rw [restShowable_cycles, h] at hshown
      cases hshown
    · exact nofun

theorem surroundings_cycles (l : Loop) (n : Nat) : (l.cycles n).surroundings = l.surroundings := by
  induction n with
  | zero => rfl
  | succ n ih => exact (l.cycles n).runs.surroundings.trans ih

end Loop

/-! ## Any number of cycles -/

theorem Lesson.keys {outcome : Outcome} {updates : List (String × Value)}
    (h : Lesson outcome updates) : updates.map Prod.fst =
      ["last_dominant_morphism", "tensor_field_state", "derivation_hash"] := by
  cases h with
  | of_field => rfl

section

variable {clock : Answers String} {cs : List Completed} {updates : List (String × Value)}

theorem Reports.keys (h : Reports clock cs updates) : updates.map Prod.fst <+: knownKeys := by
  cases h with
  | nothing => exact List.nil_prefix
  | moment => exact ⟨_, rfl⟩
  | lesson _ _ _ hlesson =>
    rw [List.map_cons, hlesson.keys]
    exact List.prefix_refl _

theorem Reports.pairwise (h : Reports clock cs updates) :
    updates.Pairwise fun u w => u.1 ≠ w.1 := by
  have hknown : knownKeys.Nodup := by decide
  exact List.pairwise_map.1 (hknown.sublist h.keys.sublist)

/-- With one more completed cycle that had no work only the time is another one. -/
theorem Reports.idle {entries : List (Value × Value)} {c : Completed} {time : String}
    (h : Reports clock cs updates) (ht : clock c.reading = .ok time) (hc : ¬ c.outcome.HasWork) :
    ∃ updates', Reports clock (cs ++ [c]) updates' ∧
      putAll (putAll entries updates) [Loop.update time] = putAll entries updates' := by
  have hlast : (cs ++ [c]).getLast? = some c := List.getLast?_concat
  have hidle (hcs : ∀ c' ∈ cs, ¬ c'.outcome.HasWork) :
      Reports clock (cs ++ [c]) [Loop.update time] :=
    .moment hlast ht (List.forall_mem_append.2 ⟨hcs, List.forall_mem_singleton.2 hc⟩)
  cases h with
  | nothing hcs => exact ⟨_, hidle (hcs ▸ nofun), rfl⟩
  | moment _ _ hcs => exact ⟨_, hidle hcs, putAll_single rfl nofun⟩
  | @lesson _ worked _ updates hl ht' hlatest hlesson =>
    obtain ⟨hworked, before, after, hsplit, hafter⟩ := hlatest
    refine ⟨Loop.update time :: updates, .lesson hlast ht ⟨hworked, before, after ++ [c], ?_, ?_⟩
      hlesson, putAll_single rfl ?_⟩
    · rw [hsplit, List.append_assoc, List.cons_append]
    · exact List.forall_mem_append.2 ⟨hafter, List.forall_mem_singleton.2 hc⟩
    · have hpairwise := (Reports.lesson hl ht' ⟨hworked, before, after, hsplit, hafter⟩
        hlesson).pairwise
      exact (List.pairwise_cons.1 hpairwise).1

/-- With one more completed cycle that had work all is as this one has it. -/
theorem Reports.work {entries : List (Value × Value)} {c : Completed} {time : String}
    {lesson : List (String × Value)} (h : Reports clock cs updates)
    (ht : clock c.reading = .ok time) (hc : c.outcome.HasWork) (hl : Lesson c.outcome lesson) :
    Reports clock (cs ++ [c]) (Loop.update time :: lesson) ∧
      putAll (putAll entries updates) (Loop.update time :: lesson) =
        putAll entries (Loop.update time :: lesson) := by
  have hreports : Reports clock (cs ++ [c]) (Loop.update time :: lesson) :=
    .lesson List.getLast?_concat ht ⟨hc, cs, [], rfl, nofun⟩ hl
  have hkeys : (Loop.update time :: lesson).map Prod.fst = knownKeys := by
    rw [List.map_cons, hl.keys]
    rfl
  exact ⟨hreports, putAll_of_prefix (hkeys ▸ h.keys) hreports.pairwise⟩

end

namespace Loop

/-- What is known after some cycles is what was known before, with the report of the
    completed ones written, if everything else that is known has a text. -/
theorem exists_reports {l : Loop} (hrest : restShowable l.agentState = true) (n : Nat) :
    ∃ updates, Reports l.surroundings.clock (l.completed n) updates ∧
      (l.cycles n).agentState = putAll l.agentState updates := by
  induction n with
  | zero => exact ⟨[], .nothing rfl, rfl⟩
  | succ n ih =>
    obtain ⟨updates, hreports, hstate⟩ := ih
    rw [completed, completion, cycles]
    rcases (l.cycles n).runs.writes ((l.restShowable_cycles n).trans hrest) with
      ⟨failure, ho, hs⟩ | ⟨result, time, ho, ht, hs⟩
    · rw [ho, hs, hstate]
      exact ⟨updates, (List.append_nil (l.completed n)).symm ▸ hreports, rfl⟩
    · rw [surroundings_cycles] at ht
      rw [ho]
      rcases hs with ⟨hidle, hs⟩ | ⟨hwork, lesson, hlesson, hs⟩
      · rw [hs, hstate]
        exact hreports.idle (c := ⟨_, result⟩) ht hidle
      · rw [hs, hstate]
        exact ⟨_, hreports.work (c := ⟨_, result⟩) ht hwork hlesson⟩

/-- What an agent knows after any number of cycles, completed or failed in any order,
    is what it knew before with a report of the completed ones written, if all other
    entries have a text. The time is that of the latest of them; field, dominant morphism
    and hash belong to the latest one with work, and are not written if there was none.
    All other entries are as they were; the keys keep their places, and new ones are behind
    them. And each single cycle writes nothing, or the time alone if it has no work, or both.
    If another entry has no text, no cycle with work is completed. -/
theorem agentState_cycles (l : Loop) (n : Nat) :
    (restShowable l.agentState = true →
      (∃ updates, Reports l.surroundings.clock (l.completed n) updates ∧
        (l.cycles n).agentState = putAll l.agentState updates ∧
        Written l.agentState updates (l.cycles n).agentState ∧
        (l.cycles n).agentState.map Prod.fst = l.agentState.map Prod.fst ++
          (updates.filter fun u => !hasKey l.agentState u.1).map fun u => .str u.1) ∧
      ((∃ failure, (l.cycles n).run.outcome = .error failure ∧
          (l.cycles (n + 1)).agentState = (l.cycles n).agentState) ∨
        ∃ outcome time, (l.cycles n).run.outcome = .ok outcome ∧
          l.surroundings.clock (l.cycles n).readings = .ok time ∧
          ((¬ outcome.HasWork ∧
              (l.cycles (n + 1)).agentState = putAll (l.cycles n).agentState [update time]) ∨
            (outcome.HasWork ∧ ∃ updates, Lesson outcome updates ∧
              (l.cycles (n + 1)).agentState =
                putAll (l.cycles n).agentState (update time :: updates))))) ∧
    (restShowable l.agentState = false → ∀ c ∈ l.completed n, ¬ c.outcome.HasWork) := by
  refine ⟨fun hrest => ⟨?_, ?_⟩, not_hasWork_of_completed⟩
  · obtain ⟨updates, hreports, hstate⟩ := exists_reports hrest n
    refine ⟨updates, hreports, hstate, ?_, ?_⟩
    · rw [hstate]
      exact written_putAll _ hreports.pairwise
    · rw [hstate]
      exact keys_putAll _ hreports.pairwise
  · rw [← l.surroundings_cycles n]
    exact (l.cycles n).runs.writes ((l.restShowable_cycles n).trans hrest)

/-- Of two cycles, one that a handler fails and one without work, the second is all there is
    a report of. -/
theorem agentState_cycles_of_failed :
    ∃ updates, Reports givingUp.surroundings.clock (givingUp.completed 2) updates ∧
      (givingUp.cycles 2).agentState = putAll [(.str "calm", .bool true)] updates := by
  obtain ⟨⟨updates, hreports, hstate, -⟩, -⟩ := (agentState_cycles givingUp 2).1 rfl
  exact ⟨updates, hreports, hstate⟩

/-- A cycle that fails has written something if the state cannot be shown. -/
theorem agentState_of_huge :
    (holding .huge).completed 1 = [] ∧
      ((holding .huge).cycles 1).agentState ≠ (holding .huge).agentState := by
  obtain ⟨houtcome, hstate⟩ := run_holding Value.isShowable_huge
  have hcompleted (l : Loop) : l.completed 1 = l.completion := rfl
  have hcycles (l : Loop) : l.cycles 1 = l.run.after := rfl
  rw [hcompleted, completion, houtcome, hcycles]
  exact ⟨rfl, hstate⟩

end Loop

end Reflex

end Heptad
