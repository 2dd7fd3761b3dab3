import Heptad.Proofs.Field.ClosedForm
import Heptad.Proofs.Field.Dominant

/-!
# Forgetting and keeping the past

A run forgets the state it began in as soon as its window shows a rule and has only
incoming morphisms in it: the origin of the field is then among these, and so is the
history. With the table of all rules an identity is enough for this, with two more
morphisms before or behind it. Without any identity, on the other hand, all is kept.

* `Origin.of_window`: an origin behind such a window is one for any state;
* `State.run_eq_of_window`: so runs that begin anywhere come to the same state;
* `State.run_eq_of_identity`: the window is there, if the identity is among at least
  three incoming morphisms;
* `State.run_of_no_identity`: without it, each weight is only added to;
* `Evaluator.evaluate_synchronizes`: what this means for calls.
-/

-- Powers of naturals are those of the core library, whatever else is imported.
attribute [local instance (high)] instPowNat

namespace Heptad

namespace Field

section Runs

variable {t : Table3} {s s' : State} {ms : List Morphism} {i : Nat}

/-! ## Forgetting -/

/-- Behind the history a window shows what the incoming morphisms say. -/
theorem cellAt_word (t : Table3) (s : State) (ms : List Morphism) (i : Nat) :
    cellAt t (s.word ms) (i + 2) = cellAt t ms i := rfl

/-- If a window without the history shows a rule, the run goes back to this rule or a
    later one, wherever it began. -/
theorem Origin.of_window (hi : i + 2 < ms.length) (hc : (cellAt t ms i).isSome) {f : Field}
    {k : Nat} (h : Origin t s ms f k) : Origin t s' ms f k := by
  have hrule : cellAt t (s.word ms) (i + 2) ≠ none := by
    rw [cellAt_word]
    exact Option.isSome_iff_ne_none.1 hc
  cases h with
  | start hnone => exact absurd (hnone _ hi) hrule
  | @collapse j r hj hr hnone =>
    have hle : i + 2 ≤ j := Nat.le_of_not_lt fun hlt => hrule (hnone _ hlt hi)
    obtain ⟨j, rfl⟩ := Nat.exists_eq_add_of_le' (Nat.le_trans (Nat.le_add_left 2 i) hle)
    refine .collapse hj hr fun l hl hlt => ?_
    obtain ⟨l, rfl⟩ := Nat.exists_eq_add_of_le'
      (Nat.le_trans (Nat.le_add_left 2 j) (Nat.le_of_lt hl))
    exact hnone _ hl hlt

namespace State

theorem eq_of_history (hf : s.field = s'.field) (hh : s.history = s'.history) : s = s' := by
  obtain ⟨f, a, b⟩ := s
  obtain ⟨g, c, d⟩ := s'
  cases hf
  cases hh
  rfl

/-- Runs that begin anywhere come to the same state, once a window without their
    histories shows a rule. -/
theorem run_eq_of_window (hi : i + 2 < ms.length) (hc : (cellAt t ms i).isSome) :
    s.run t ms = s'.run t ms := by
  obtain ⟨f, k, ho, hf⟩ := Origin.exists_origin t s ms
  obtain ⟨f', k', ho', hf'⟩ := Origin.exists_origin t s' ms
  obtain ⟨rfl, rfl⟩ := (ho.of_window hi hc).unique ho'
  refine eq_of_history (hf.trans hf'.symm) ?_
  -- At least three morphisms have come in, so that the latest two are among them.
  obtain ⟨n, hn⟩ := Nat.exists_eq_add_of_le' (Nat.le_trans (Nat.le_add_left 2 i) (Nat.le_of_lt hi))
  rw [history_run, history_run, hn]
  rfl

/-- Of at least three morphisms, some three in a row have a given one among them. -/
theorem exists_window {m : Morphism} (hl : 3 ≤ ms.length) (hm : m ∈ ms) :
    ∃ i, i + 2 < ms.length ∧ m ∈ (ms.drop i).take 3 := by
  obtain ⟨j, hj, hget⟩ := List.mem_iff_getElem.1 hm
  refine ⟨min j (ms.length - 3), by omega, List.mem_iff_getElem?.2 ⟨j - min j (ms.length - 3), ?_⟩⟩
  rw [List.getElem?_take_of_lt (by omega), List.getElem?_drop,
    Nat.add_sub_cancel' (Nat.min_le_left _ _), List.getElem?_eq_getElem hj, hget]

/-- With the table of all rules, runs of at least three morphisms with the identity
    among them come to the same state. -/
theorem run_eq_of_identity (hl : 3 ≤ ms.length) (hm : .identity ∈ ms) :
    s.run .standard3 ms = s'.run .standard3 ms := by
  obtain ⟨i, hi, hwindow⟩ := exists_window hl hm
  exact run_eq_of_window hi ((isSome_cellAt_standard3 hi).2 hwindow)

/-! ## Keeping -/

/-- With the table of all rules, a run that reads no identity adds to each weight what
    comes in. -/
theorem run_of_no_identity (hs : .identity ∉ s.history) (hm : .identity ∉ ms) (k : Morphism) :
    ((s.run .standard3 ms).field.weight k) = (s.field.weight k).addOnes (ms.count k) := by
  obtain ⟨f, n, ho, hf⟩ := Origin.exists_origin .standard3 s ms
  cases ho with
  | start => rw [hf, weight_bumpAll, List.drop_zero]
  | @collapse i r hi hr =>
    -- A window with a rule would have the identity in it.
    have hlt : i + 2 < (s.word ms).length := by
      rw [length_word]
      omega
    have hmem := (isSome_cellAt_standard3 hlt).1 (hr ▸ rfl)
    have hword : .identity ∈ s.word ms := List.mem_of_mem_drop (List.mem_of_mem_take hmem)
    exact ((List.mem_append.1 hword).elim hs hm).elim

end State

end Runs

/-! ## Calls -/

namespace Evaluator

/-- With the table of all rules, two calls that end with the same steps, at least three
    and an identity among them, return the same field and leave the same state, whatever
    steps come before and in whatever states they begin. A call that reads no identity,
    not even in the history, discards nothing: each weight has one added for each
    occurrence of its morphism, so that it is never less than before, and is greater by
    their number as long as the sums are not rounded. -/
theorem evaluate_synchronizes {e : Evaluator} (hf : e.shell.inFlight = false)
    (ht : e.table = .standard3) :
    (∀ (e' : Evaluator) (D D' : Value) (ps qs ss : List Value) (ks ls ms : List Morphism),
      e'.shell.inFlight = false → e'.table = .standard3 →
      D.items? = .ok (ps ++ ss) → D'.items? = .ok (qs ++ ss) →
      acceptAll 1 ps = .ok ks → acceptAll 1 qs = .ok ls → acceptAll 1 ss = .ok ms →
      3 ≤ ms.length → .identity ∈ ms →
      ∃ field, (e.evaluate D).outcome = .ok field ∧ (e'.evaluate D').outcome = .ok field ∧
        (e.evaluate D).after.state.field = field ∧
        (e.evaluate D).after.state = (e'.evaluate D').after.state) ∧
    ∀ (D : Value) (steps : List Value) (ms : List Morphism), D.items? = .ok steps →
      acceptAll 1 steps = .ok ms → .identity ∉ e.state.history → .identity ∉ ms →
      ∃ field, (e.evaluate D).outcome = .ok field ∧ (e.evaluate D).after.state.field = field ∧
        ∀ k, (e.state.field.weight k).Grows (field.weight k) (ms.count k) := by
  refine ⟨?_, ?_⟩
  · intro e' D D' ps qs ss ks ls ms hf' ht' hD hD' hps hqs hss hl hm
    obtain ⟨houtcome, hafter⟩ := evaluate_of_accepted hf hD (acceptAll_append hps hss)
    obtain ⟨houtcome', hafter'⟩ := evaluate_of_accepted hf' hD' (acceptAll_append hqs hss)
    have hrun : e.state.run e.table (ks ++ ms) = e'.state.run e'.table (ls ++ ms) := by
      rw [ht, ht', State.run_append, State.run_append]
      exact State.run_eq_of_identity hl hm
    rw [← hrun] at houtcome' hafter'
    exact ⟨_, houtcome, houtcome', by rw [hafter], by rw [hafter, hafter']⟩
  · intro D steps ms hD hsteps hs hm
    obtain ⟨houtcome, hafter⟩ := evaluate_of_accepted hf hD hsteps
    refine ⟨_, houtcome, by rw [hafter], fun k => ?_⟩
    rw [ht, State.run_of_no_identity hs hm]
    exact Binary64.grows_addOnes _ _

/-- An application, a conjunction and the identity make up for any past; and two more
    conjunctions in a row are counted exactly, if they find no weight. -/
theorem evaluate_synchronizes_of_three :
    (∃ field,
      ((standard .null).evaluate (.list [.int 5, .int 1, .int 3, .int 0])).outcome = .ok field ∧
      ((standard .null).evaluate (.list [.int 1, .int 3, .int 0])).outcome = .ok field) ∧
    ∃ e field,
      new .null (.mapping []) (.list [.int 1, .int 3]) .standard = .ok e ∧
      (e.evaluate (.list [.int 3, .int 3])).outcome = .ok field ∧
      (field.number .conj).extent? = some (.units ((2 : Nat) * Magnitude.scale)) := by
  refine ⟨?_, ?_⟩
  · obtain ⟨field, h, h', -⟩ := (evaluate_synchronizes (e := standard .null) rfl rfl).1
      (standard .null) (.list [.int 5, .int 1, .int 3, .int 0]) (.list [.int 1, .int 3, .int 0])
      [.int 5] [] [.int 1, .int 3, .int 0] [.cond] [] [.apply, .conj, .identity]
      rfl rfl rfl rfl rfl rfl rfl (by decide) (by decide)
    exact ⟨field, h, h'⟩
  · have hnew : new .null (.mapping []) (.list [.int 1, .int 3]) .standard =
        .ok ⟨.new name .null, .standard3, ⟨zero, .apply, .conj⟩⟩ := rfl
    obtain ⟨field, h, -, hgrows⟩ := (evaluate_synchronizes
      (e := ⟨.new name .null, .standard3, ⟨zero, .apply, .conj⟩⟩) rfl rfl).2
      (.list [.int 3, .int 3]) [.int 3, .int 3] [.conj, .conj] rfl rfl (by decide) (by decide)
    have hcount : ([.conj, .conj] : List Morphism).count .conj = 2 := by decide
    have hwhole (j : Nat) (hj : j ≤ ([.conj, .conj] : List Morphism).count .conj) :
        ∃ z : Binary64, z.extent? = some (.units (0 + j * Magnitude.scale)) := by
      have hle : (j : Int).natAbs ≤ 2 ^ (53 : Nat) := Nat.le_trans (hcount ▸ hj) (by decide)
      rw [Int.zero_add]
      exact Binary64.exists_extent?_whole hle
    have hexact := (hgrows .conj).exact 0 rfl hwhole
    rw [hcount, Int.zero_add] at hexact
    exact ⟨_, field, hnew, h, hexact⟩

/-- Two to the power of fifty-three. -/
def heavy : Binary64 :=
  .finite false ⟨2 ^ (52 : Nat), 1075, Magnitude.one.mant_lt, by decide, .inl (Nat.le_refl _)⟩

/-- A weight can be too great to be added to: two applications find this one and leave it
    as it is. -/
theorem growth_is_rounded :
    ∃ e field,
      new .null (.mapping [(.morphism .apply, .float heavy)])
        (.list [.morphism .apply, .morphism .apply]) .standard = .ok e ∧
      .identity ∉ e.state.history ∧
      (e.evaluate (.list [.morphism .apply, .morphism .apply])).outcome = .ok field ∧
      (e.state.field.number .apply).eq (.int 9007199254740992) = true ∧
      (field.number .apply).eq (.int 9007199254740992) = true ∧
      (field.number .apply).eq (.int (9007199254740992 + 2)) = false := by
  have hnew : new .null (.mapping [(.morphism .apply, .float heavy)])
      (.list [.morphism .apply, .morphism .apply]) .standard =
    .ok ⟨.new name .null, .standard3, ⟨zero.setWeight .apply heavy, .apply, .apply⟩⟩ := rfl
  have haccept : acceptAll 1 [.morphism .apply, .morphism .apply] = .ok [.apply, .apply] := rfl
  exact ⟨_, _, hnew, by decide, (evaluate_of_accepted rfl rfl haccept).1, by decide +kernel,
    by decide +kernel, by decide +kernel⟩

end Evaluator

end Field

end Heptad
