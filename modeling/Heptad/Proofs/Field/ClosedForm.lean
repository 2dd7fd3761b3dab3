import Heptad.Proofs.Binary64.Increment
import Heptad.Proofs.Field.Evaluation
import Heptad.Proofs.Table.Rules

/-!
# The field machine in closed form

A run reads a word, its history followed by the incoming morphisms, through a window
of three that ends in the incoming morphism. Of all that was before, nothing is left
once the window shows a cell with a rule: the field collapses to what the cell holds,
and from the last of these cells on the incoming morphisms are only counted.

* `Origin`: what a run goes back to, the last cell with a rule or else the field it
  began with, and the number of steps up to there;
* `Origin.exists_origin`, `Origin.unique`: the field after a run is its origin, with
  one added for each morphism behind it;
* `isSome_cellAt_standard3`: in the table of all rules a window collapses the field iff
  the identity is in it, so that the weight of the identity is never added to;
* `Evaluator.evaluate_of_origin`: hence what a call returns, and the state it leaves.
-/

namespace Heptad

namespace Field

/-! ## Counting -/

/-- The field with one added for each of several morphisms, in their order. -/
def bumpAll (f : Field) (ms : List Morphism) : Field := ms.foldl bump f

/-- The order makes no difference: each weight has one added for each occurrence of
    its morphism. -/
theorem weight_bumpAll (f : Field) (ms : List Morphism) (k : Morphism) :
    (f.bumpAll ms).weight k = (f.weight k).addOnes (ms.count k) := by
  induction ms generalizing f with
  | nil => rfl
  | cons m ms ih =>
    rw [bumpAll, List.foldl_cons, ← bumpAll, ih, bump]
    by_cases h : k = m
    · rw [h, weight_setWeight_self, List.count_cons_self, Binary64.addOnes]
    · rw [weight_setWeight_of_ne _ _ h, List.count_cons_of_ne (Ne.symm h)]

/-! ## Windows -/

/-- What a table holds for the three morphisms of a word from a place on. -/
def cellAt (t : Table3) (word : List Morphism) (i : Nat) : Option Morphism :=
  match word.drop i with
  | a :: b :: c :: _ => t.cell (a, b, c)
  | _ => none

/-- In the table of all rules the windows that show a rule are those that show the
    identity. -/
theorem isSome_cellAt_standard3 {word : List Morphism} {i : Nat} (h : i + 2 < word.length) :
    (cellAt .standard3 word i).isSome ↔ .identity ∈ (word.drop i).take 3 := by
  have hlength : 2 < (word.drop i).length := by
    rw [List.length_drop]
    omega
  rw [cellAt]
  match word.drop i, hlength with
  | a :: b :: c :: _, _ => exact Table.isSome_cell_standard3 (a, b, c)

/-- What a run reads: the history and the incoming morphisms. -/
def State.word (s : State) (ms : List Morphism) : List Morphism := s.history ++ ms

/-- What a run goes back to: the field it begins with, if no window shows a rule, and
    otherwise what the last of these collapses the field to. With it goes the number of
    steps up to there. -/
inductive Origin (t : Table3) (s : State) (ms : List Morphism) : Field → Nat → Prop
  | start : (∀ i < ms.length, cellAt t (s.word ms) i = none) → Origin t s ms s.field 0
  | collapse {i : Nat} {r : Morphism} : i < ms.length → cellAt t (s.word ms) i = some r →
      (∀ j, i < j → j < ms.length → cellAt t (s.word ms) j = none) →
      Origin t s ms (oneHot r) (i + 1)

section Runs

variable {t : Table3} {s : State} {ms : List Morphism}

/-! ## Runs -/

namespace State

theorem length_word (s : State) (ms : List Morphism) : (s.word ms).length = ms.length + 2 := by
  rw [word, List.length_append, Nat.add_comm]
  rfl

/-- The history after a run is the end of what it reads. -/
theorem history_run (t : Table3) (s : State) (ms : List Morphism) :
    (s.run t ms).history = (s.word ms).drop ms.length := by
  induction ms generalizing s with
  | nil => rfl
  | cons m ms ih => exact ih (s.step t m)

/-- An incoming identity is in the window that it ends. -/
theorem identity_mem_window {i : Nat} (h : ms[i]? = some .identity) :
    .identity ∈ ((s.word ms).drop i).take 3 := by
  have hword : (((s.word ms).drop i).take 3)[2]? = some .identity := by
    rw [List.getElem?_take_of_lt (by decide), List.getElem?_drop]
    exact h
  exact List.mem_of_getElem? hword

/-- With the table of all rules, an identity is not counted. -/
theorem ne_identity_of_cellAt {i : Nat} (hi : i < ms.length)
    (h : cellAt .standard3 (s.word ms) i = none) : ms[i]? ≠ some .identity := by
  intro hm
  have hlt : i + 2 < (s.word ms).length := by
    rw [length_word]
    omega
  have hsome := (isSome_cellAt_standard3 hlt).2 (identity_mem_window hm)
  rw [h] at hsome
  cases hsome

end State

namespace Origin

/-- Past the first step the windows are those of the steps that follow. -/
theorem cons {m : Morphism} {f : Field} {k : Nat} (h : Origin t (s.step t m) ms f k) :
    ∃ f' k', Origin t s (m :: ms) f' k' ∧
      f.bumpAll (ms.drop k) = f'.bumpAll ((m :: ms).drop k') := by
  cases h with
  | start hnone =>
    cases hr : t.cell (s.window m) with
    | none =>
      -- The first step is counted as well.
      refine ⟨s.field, 0, .start fun i hi => ?_, ?_⟩
      · cases i with
        | zero => exact hr
        | succ i => exact hnone i (Nat.lt_of_succ_lt_succ hi)
      · rw [State.step, State.fieldAfter, hr]
        rfl
    | some r =>
      -- The first step collapses the field, and no later one does.
      refine ⟨oneHot r, 1, .collapse (Nat.succ_pos _) hr fun j hj hlt => ?_, ?_⟩
      · cases j with
        | zero => exact absurd hj (Nat.lt_irrefl 0)
        | succ j => exact hnone j (Nat.lt_of_succ_lt_succ hlt)
      · rw [State.step, State.fieldAfter, hr]
        rfl
  | @collapse i r hi hr hnone =>
    refine ⟨oneHot r, i + 2, .collapse (Nat.succ_lt_succ hi) hr fun j hj hlt => ?_, rfl⟩
    cases j with
    | zero => exact absurd hj (Nat.not_lt_zero _)
    | succ j => exact hnone j (Nat.lt_of_succ_lt_succ hj) (Nat.lt_of_succ_lt_succ hlt)

/-- A run has an origin, and leads to it with one added for each morphism behind it. -/
theorem exists_origin (t : Table3) (s : State) (ms : List Morphism) :
    ∃ f k, Origin t s ms f k ∧ (s.run t ms).field = f.bumpAll (ms.drop k) := by
  induction ms generalizing s with
  | nil => exact ⟨s.field, 0, .start fun _ hi => absurd hi (Nat.not_lt_zero _), rfl⟩
  | cons m ms ih =>
    obtain ⟨f, k, ho, hf⟩ := ih (s.step t m)
    obtain ⟨f', k', ho', hf'⟩ := ho.cons
    exact ⟨f', k', ho', hf.trans hf'⟩

/-- A run has no more than one origin. -/
theorem unique {f f' : Field} {k k' : Nat} (h : Origin t s ms f k) (h' : Origin t s ms f' k') :
    f = f' ∧ k = k' := by
  cases h with
  | start hnone =>
    cases h' with
    | start => exact ⟨rfl, rfl⟩
    | collapse hi hr =>
      rw [hnone _ hi] at hr
      cases hr
  | @collapse i r hi hr hnone =>
    cases h' with
    | start hnone' =>
      rw [hnone' _ hi] at hr
      cases hr
    | @collapse i' r' hi' hr' hnone' =>
      rcases Nat.lt_trichotomy i i' with hlt | rfl | hlt
      · rw [hnone _ hlt hi'] at hr'
        cases hr'
      · obtain rfl := Option.some.inj (hr.symm.trans hr')
        exact ⟨rfl, rfl⟩
      · rw [hnone' _ hlt hi] at hr
        cases hr

/-- With the table of all rules, no identity comes behind the origin. -/
theorem count_identity {f : Field} {k : Nat} (h : Origin .standard3 s ms f k) :
    (ms.drop k).count .identity = 0 := by
  have hbehind : ∀ i, k ≤ i → i < ms.length → cellAt .standard3 (s.word ms) i = none := by
    cases h with
    | start hnone => exact fun i _ => hnone i
    | collapse _ _ hnone => exact hnone
  refine List.count_eq_zero.2 fun hmem => ?_
  obtain ⟨j, hj⟩ := List.mem_iff_getElem?.1 hmem
  rw [List.getElem?_drop] at hj
  have hlt := (List.getElem?_eq_some_iff.1 hj).1
  exact State.ne_identity_of_cellAt hlt (hbehind _ (Nat.le_add_right k j) hlt) hj

end Origin

end Runs

/-! ## Calls -/

namespace Evaluator

/-- What an accepted call comes to. It returns the field that the last cell with a rule
    in its way collapses to, or else the field it began with, with one added to the
    weight of each morphism that comes in behind; this field it keeps, and as history
    the last two morphisms of all it has read. With the table of all rules a step
    collapses the field iff the identity is in its window, so that an incoming identity
    is never counted. -/
theorem evaluate_of_origin {e : Evaluator} {derivation : Value} {steps : List Value}
    {ms : List Morphism} (hf : e.shell.inFlight = false) (hi : derivation.items? = .ok steps)
    (ha : acceptAll 1 steps = .ok ms) :
    ∃ field origin k,
      (e.evaluate derivation).outcome = .ok field ∧
      (e.evaluate derivation).after.state.field = field ∧
      (e.evaluate derivation).after.state.history = (e.state.word ms).drop ms.length ∧
      Origin e.table e.state ms origin k ∧
      (∀ m, field.weight m = (origin.weight m).addOnes ((ms.drop k).count m)) ∧
      (e.table = .standard3 →
        (∀ i < ms.length, (cellAt e.table (e.state.word ms) i).isSome ↔
          .identity ∈ ((e.state.word ms).drop i).take 3) ∧
        (∀ i < ms.length, cellAt e.table (e.state.word ms) i = none → ms[i]? ≠ some .identity) ∧
        field.weight .identity = origin.weight .identity) := by
  obtain ⟨houtcome, hafter⟩ := evaluate_of_accepted hf hi ha
  obtain ⟨origin, k, horigin, hfield⟩ := Origin.exists_origin e.table e.state ms
  have hweight (m : Morphism) : (e.state.run e.table ms).field.weight m =
      (origin.weight m).addOnes ((ms.drop k).count m) := by
    rw [hfield, weight_bumpAll]
  refine ⟨_, origin, k, houtcome, by rw [hafter], by rw [hafter, State.history_run], horigin,
    hweight, fun ht => ⟨fun i hlt => ?_, fun i hlt hnone => ?_, ?_⟩⟩
  · rw [ht]
    refine isSome_cellAt_standard3 ?_
    rw [State.length_word]
    omega
  · rw [ht] at hnone
    exact State.ne_identity_of_cellAt hlt hnone
  · rw [ht] at horigin
    rw [hweight, horigin.count_identity, Binary64.addOnes]

/-- A new evaluator has the last identity in its window with the second step, and counts
    the three that come behind. -/
theorem evaluate_of_origin_of_new :
    ∃ field,
      ((standard .null).evaluate (.list [.int 4, .int 3, .int 3, .int 4, .int 3])).outcome =
        .ok field ∧
      ∀ m, field.weight m =
        ((oneHot .conj).weight m).addOnes (([.conj, .neg, .conj] : List Morphism).count m) := by
  have hcollapse :
      Origin .standard3 .initial [.neg, .conj, .conj, .neg, .conj] (oneHot .conj) 2 := by
    refine .collapse (by decide) (by decide +kernel) fun j hj hlt => ?_
    match j, hj, hlt with
    | 2, _, _ | 3, _, _ | 4, _, _ => decide +kernel
  have hfree : (standard .null).shell.inFlight = false := rfl
  have hitems : (Value.list [.int 4, .int 3, .int 3, .int 4, .int 3]).items? = .ok _ := rfl
  have haccept : acceptAll 1 [.int 4, .int 3, .int 3, .int 4, .int 3] =
      .ok [.neg, .conj, .conj, .neg, .conj] := rfl
  obtain ⟨field, origin, k, houtcome, -, -, horigin, hweight, -⟩ :=
    evaluate_of_origin hfree hitems haccept
  obtain ⟨rfl, rfl⟩ := horigin.unique hcollapse
  exact ⟨field, houtcome, hweight⟩

end Evaluator

end Field

end Heptad
