import Mathlib.Data.List.Dedup
import Heptad.Proofs.Table.Cells
import Heptad.Proofs.Table.Rules

/-!
# The last rule wins

Rules are applied in order, and each one overrides what it finds. So in a table that
rules build, a cell holds what the last of them that writes it would write on its own.

* `Rule.Writes`, `Rule.alone`: the cells a rule writes, and the table it builds on its own;
* `LastWriter`: the last of several rules that writes a cell;
* `cell_build_append`: rules that come later override those before, cell by cell;
* `cell_build_of_lastWriter`: so the last one that writes a cell decides;
* `build_dedup`: of a rule that is applied again only the last time counts;
* `build_swap_iff`: two rules in a row can be swapped iff all that they disagree on is
  written again;
* `last_writer_wins`: hence the tables built by named rules, in any order.
-/

namespace Heptad

variable {ι : Type} {i : ι}

/-! ## Writers -/

deriving instance DecidableEq for Rule

/-- A rule writes a cell. -/
def Rule.Writes (r : Rule ι) (i : ι) : Prop := ∃ w ∈ r.writes, i = w.1

/-- A rule writes a cell and is the last of several ones to do so. -/
def LastWriter (rules : List (Rule ι)) (i : ι) (r : Rule ι) : Prop :=
  ∃ before later, rules = before ++ r :: later ∧ r.Writes i ∧ ∀ q ∈ later, ¬ q.Writes i

/-- If any rule writes a cell, there is a last one. -/
theorem exists_lastWriter (rules : List (Rule ι)) (i : ι) :
    (∃ r, LastWriter rules i r) ∨ ∀ r ∈ rules, ¬ r.Writes i := by
  induction rules with
  | nil => exact .inr fun _ hr => absurd hr List.not_mem_nil
  | cons q rules ih =>
    rcases ih with ⟨r, before, later, rfl, hr, hlater⟩ | hnone
    · exact .inl ⟨r, q :: before, later, rfl, hr, hlater⟩
    · by_cases hq : q.Writes i
      · exact .inl ⟨q, [], rules, rfl, hq, hnone⟩
      · exact .inr (List.forall_mem_cons.2 ⟨hq, hnone⟩)

/-! ## Cells -/

namespace Table

/-- What overrides step by step overrides as a whole. -/
theorem cell_foldl {α : Type} {f : Table ι → α → Table ι}
    (h : ∀ t x, (f t x).cell i = ((f empty x).cell i).or (t.cell i)) (t : Table ι) (xs : List α) :
    (xs.foldl f t).cell i = ((xs.foldl f empty).cell i).or (t.cell i) := by
  induction xs generalizing t with
  | nil => rfl
  | cons x xs ih => rw [List.foldl_cons, List.foldl_cons, ih, ih (f empty x), h, Option.or_assoc]

/-- What is written in three turns does not depend on the order of the first two iff they
    agree, or the last one decides. -/
theorem or_comm_iff {first second last : Option Morphism} (before : Option Morphism) :
    last.or (first.or (second.or before)) = last.or (second.or (first.or before)) ↔
      (first.isSome → second.isSome → first ≠ second → last.isSome) := by
  cases last <;> cases first <;> cases second <;> simp [eq_comm]

end Table

variable [DecidableEq ι]

/-- The table a rule builds on its own. -/
def Rule.alone (r : Rule ι) : Table ι := .build [r]

theorem Rule.isSome_cell_alone (r : Rule ι) (i : ι) : (r.alone.cell i).isSome ↔ r.Writes i := by
  rw [alone, Table.isSome_cell_build, List.exists_mem_cons_iff]
  exact or_iff_left fun ⟨_, hr, _⟩ => List.not_mem_nil hr

namespace Table

/-- A cell that is written overrides what was there before. -/
theorem cell_set (t : Table ι) (w : ι × Morphism) :
    (t.set w.1 w.2).cell i = ((empty.set w.1 w.2).cell i).or (t.cell i) := by
  by_cases h : i = w.1
  · rw [h, cell_set_self, cell_set_self, Option.some_or]
  · rw [cell_set_of_ne _ _ h, cell_set_of_ne _ _ h, cell_empty, Option.none_or]

/-- A rule overrides what was there before in the cells it writes. -/
theorem cell_writeAll (t : Table ι) (r : Rule ι) :
    (t.writeAll r.writes).cell i = (r.alone.cell i).or (t.cell i) :=
  cell_foldl cell_set t r.writes

/-- Rules that come later override those before. -/
theorem cell_build_append (rules later : List (Rule ι)) (i : ι) :
    (build (rules ++ later)).cell i = ((build later).cell i).or ((build rules).cell i) := by
  rw [build, List.foldl_append]
  exact cell_foldl cell_writeAll _ later

theorem cell_build_cons (r : Rule ι) (later : List (Rule ι)) (i : ι) :
    (build (r :: later)).cell i = ((build later).cell i).or (r.alone.cell i) :=
  cell_build_append [r] later i

/-- A cell that no rule writes has none. -/
theorem cell_build_of_unwritten {rules : List (Rule ι)} (h : ∀ r ∈ rules, ¬ r.Writes i) :
    (build rules).cell i = none := by
  rw [← Option.not_isSome_iff_eq_none, isSome_cell_build]
  rintro ⟨r, hr, hw⟩
  exact h r hr hw

/-- The last rule that writes a cell decides what it holds. -/
theorem cell_build_of_lastWriter {rules : List (Rule ι)} {r : Rule ι}
    (h : LastWriter rules i r) : (build rules).cell i = r.alone.cell i := by
  obtain ⟨before, later, rfl, hr, hlater⟩ := h
  obtain ⟨m, hm⟩ := Option.isSome_iff_exists.1 ((r.isSome_cell_alone i).2 hr)
  rw [cell_build_append, cell_build_cons, cell_build_of_unwritten hlater, Option.none_or, hm,
    Option.some_or]

/-! ## Orders -/

/-- A rule that is applied again later makes no difference. -/
theorem build_cons_of_mem {r : Rule ι} {later : List (Rule ι)} (h : r ∈ later) :
    build (r :: later) = build later := by
  refine ext_cell_iff.2 fun i => ?_
  rw [cell_build_cons]
  by_cases hr : r.Writes i
  · obtain ⟨m, hm⟩ := Option.isSome_iff_exists.1 ((isSome_cell_build later i).2 ⟨r, h, hr⟩)
    rw [hm, Option.some_or]
  · rw [← r.isSome_cell_alone, Option.not_isSome_iff_eq_none] at hr
    rw [hr, Option.or_none]

/-- Of each rule only the last time counts. -/
theorem build_dedup (rules : List (Rule ι)) : build rules.dedup = build rules := by
  induction rules with
  | nil => rfl
  | cons r later ih =>
    by_cases h : r ∈ later
    · rw [List.dedup_cons_of_mem h, ih, build_cons_of_mem h]
    · rw [List.dedup_cons_of_notMem h]
      refine ext_cell_iff.2 fun i => ?_
      rw [cell_build_cons, cell_build_cons, ih]

/-- Two rules in a row can be swapped iff each cell for which they have different
    values is written again. -/
theorem build_swap_iff (before : List (Rule ι)) (r q : Rule ι) (later : List (Rule ι)) :
    build (before ++ q :: r :: later) = build (before ++ r :: q :: later) ↔
      ∀ i, r.Writes i → q.Writes i → r.alone.cell i ≠ q.alone.cell i →
        ∃ p ∈ later, p.Writes i := by
  rw [ext_cell_iff]
  refine forall_congr' fun i => ?_
  have hcell (x y : Rule ι) : (build (before ++ x :: y :: later)).cell i =
      ((build later).cell i).or
        ((y.alone.cell i).or ((x.alone.cell i).or ((build before).cell i))) := by
    rw [cell_build_append, cell_build_cons, cell_build_cons, Option.or_assoc, Option.or_assoc]
  have hlater : ((build later).cell i).isSome ↔ ∃ p ∈ later, p.Writes i :=
    isSome_cell_build later i
  rw [hcell, hcell, or_comm_iff, r.isSome_cell_alone, q.isSome_cell_alone, hlater]

end Table

/-! ## Named rules -/

omit [DecidableEq ι] in
/-- Names of rules stand for them. -/
theorem Rule.exists_named {rules : List (Rule ι)} {names : List String}
    (h : ∀ name ∈ names, name ∈ rules.map Rule.name) :
    ∃ chosen, Rule.named rules names = some chosen ∧ chosen.map Rule.name = names ∧
      ∀ r ∈ chosen, r ∈ rules := by
  induction names with
  | nil => exact ⟨[], rfl, rfl, nofun⟩
  | cons name names ih =>
    rw [List.forall_mem_cons] at h
    obtain ⟨chosen, hnamed, hnames, hmem⟩ := ih h.2
    obtain ⟨r, hr⟩ : ∃ r, rules.find? (fun r => decide (r.name = name)) = some r := by
      obtain ⟨r, hr, hname⟩ := List.mem_map.1 h.1
      exact Option.isSome_iff_exists.1 (List.find?_isSome.2 ⟨r, hr, decide_eq_true hname⟩)
    have hname : r.name = name := by simpa using List.find?_some hr
    refine ⟨r :: chosen, ?_, ?_, List.forall_mem_cons.2 ⟨List.mem_of_find?_eq_some hr, hmem⟩⟩
    · rw [named] at hnamed ⊢
      rw [List.mapM_cons, hr, hnamed]
      rfl
    · rw [List.map_cons, hnames, hname]

namespace Table

/-- In the table that rules build, each one overrides those before it. -/
structure LastWins [Address ι] (rules : List (Rule ι)) : Prop where
  /-- What is built are cells that a table can be given by. -/
  built : ofValue (build rules).toValue = .ok (build rules)
  /-- A cell holds what the last rule that writes it writes on its own. -/
  cell : ∀ i, (∃ r, LastWriter rules i r ∧ (r.alone.cell i).isSome ∧
      (build rules).cell i = r.alone.cell i) ∨
    (∀ r ∈ rules, ¬ r.Writes i) ∧ (build rules).cell i = none
  /-- Of each rule only the last time counts. -/
  dedup : build rules.dedup = build rules
  /-- Two rules in a row can be swapped iff all they disagree on is written again. -/
  swap : ∀ before r q later, rules = before ++ r :: q :: later →
    (build (before ++ q :: r :: later) = build rules ↔
      ∀ i, r.Writes i → q.Writes i → r.alone.cell i ≠ q.alone.cell i → ∃ p ∈ later, p.Writes i)

theorem lastWins [Address ι] [LawfulAddress ι] (rules : List (Rule ι)) : LastWins rules where
  built := ofValue_toValue _
  cell i := by
    rcases exists_lastWriter rules i with ⟨r, hr⟩ | hnone
    · have ⟨_, _, _, hwrites, _⟩ := hr
      exact .inl ⟨r, hr, (r.isSome_cell_alone i).2 hwrites, cell_build_of_lastWriter hr⟩
    · exact .inr ⟨hnone, cell_build_of_unwritten hnone⟩
  dedup := build_dedup rules
  swap := by
    rintro before r q later rfl
    exact build_swap_iff before r q later

/-- The tables of two and of three sides that named rules build, in any order and however
    often. There always is one, and in each cell the last rule that writes it wins. -/
theorem last_writer_wins :
    (∀ names : List String, (∀ name ∈ names, name ∈ Rules.all2.map Rule.name) →
      ∃ rules, Rule.named Rules.all2 names = some rules ∧ rules.map Rule.name = names ∧
        (∀ r ∈ rules, r ∈ Rules.all2) ∧ LastWins rules) ∧
    ∀ names : List String, (∀ name ∈ names, name ∈ Rules.all3.map Rule.name) →
      ∃ rules, Rule.named Rules.all3 names = some rules ∧ rules.map Rule.name = names ∧
        (∀ r ∈ rules, r ∈ Rules.all3) ∧ LastWins rules := by
  refine ⟨fun names h => ?_, fun names h => ?_⟩
  · obtain ⟨rules, hnamed, hnames, hmem⟩ := Rule.exists_named h
    exact ⟨rules, hnamed, hnames, hmem, lastWins rules⟩
  · obtain ⟨rules, hnamed, hnames, hmem⟩ := Rule.exists_named h
    exact ⟨rules, hnamed, hnames, hmem, lastWins rules⟩

/-- Absorption applied again behind the other rules of three sides overrides them, and the
    rules about negations and functions of two sides can be swapped. -/
theorem last_writer_wins_of_repeated :
    build [Rules.absorption3, Rules.doubleNegation, Rules.absorption3] =
        build [Rules.doubleNegation, Rules.absorption3] ∧
      build [Rules.betaIdentity, Rules.involution] =
        build [Rules.involution, Rules.betaIdentity] := by
  obtain ⟨h2, h3⟩ := last_writer_wins
  constructor
  · obtain ⟨rules, hnamed, -, -, hwins⟩ :=
      h3 ["identity_absorption", "double_negation", "identity_absorption"] (by decide)
    obtain rfl : [Rules.absorption3, Rules.doubleNegation, Rules.absorption3] = rules :=
      Option.some.inj hnamed
    have hdedup : [Rules.absorption3, Rules.doubleNegation, Rules.absorption3].dedup =
        [Rules.doubleNegation, Rules.absorption3] := by decide +kernel
    rw [← hwins.dedup, hdedup]
  · obtain ⟨rules, hnamed, -, -, hwins⟩ := h2 ["involution", "beta_identity"] (by decide)
    obtain rfl : [Rules.involution, Rules.betaIdentity] = rules := Option.some.inj hnamed
    refine (hwins.swap [] _ _ [] rfl).2 ?_
    rintro i ⟨w, hw, rfl⟩ ⟨w', hw', heq⟩
    rw [List.mem_singleton.1 hw, List.mem_singleton.1 hw'] at heq
    cases heq

end Table

end Heptad
