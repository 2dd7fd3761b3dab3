import Mathlib.Data.List.Basic
import Heptad.Table.Rules

/-!
# Which cells rules define

A table built by rules has something in a cell iff some rule writes it; the order
of the rules decides what it is, and not whether it is anything.

* `isSome_cell_build`: the cells that are defined, told from the rules;
* `isSome_cell_standard3`: in the table of all rules they are those that the
  identity addresses in one of the three places.
-/

namespace Heptad

namespace Table

section

variable {ι : Type} [DecidableEq ι]

theorem isSome_cell_set (t : Table ι) (i j : ι) (m : Morphism) :
    ((t.set i m).cell j).isSome ↔ j = i ∨ (t.cell j).isSome := by
  by_cases h : j = i
  · rw [h, cell_set_self]
    exact iff_of_true rfl (.inl rfl)
  · rw [cell_set_of_ne t m h]
    exact (or_iff_right h).symm

theorem isSome_cell_writeAll (t : Table ι) (writes : List (ι × Morphism)) (j : ι) :
    ((t.writeAll writes).cell j).isSome ↔ (∃ w ∈ writes, j = w.1) ∨ (t.cell j).isSome := by
  induction writes generalizing t with
  | nil => exact ⟨.inr, fun h => h.resolve_left fun ⟨_, hw, _⟩ => List.not_mem_nil hw⟩
  | cons w writes ih =>
    rw [writeAll, List.foldl_cons, ← writeAll, ih, isSome_cell_set, List.exists_mem_cons_iff,
      or_left_comm, or_assoc]

/-- A table has something in a cell iff one of the rules it is built by writes it. -/
theorem isSome_cell_build (rules : List (Rule ι)) (j : ι) :
    ((build rules).cell j).isSome ↔ ∃ r ∈ rules, ∃ w ∈ r.writes, j = w.1 := by
  suffices ∀ t : Table ι, ((rules.foldl (fun t r => t.writeAll r.writes) t).cell j).isSome ↔
      (∃ r ∈ rules, ∃ w ∈ r.writes, j = w.1) ∨ (t.cell j).isSome from
    (this empty).trans (or_iff_left Bool.false_ne_true)
  intro t
  induction rules generalizing t with
  | nil => exact ⟨.inr, fun h => h.resolve_left fun ⟨_, hr, _⟩ => List.not_mem_nil hr⟩
  | cons r rules ih =>
    rw [List.foldl_cons, ih, isSome_cell_writeAll, List.exists_mem_cons_iff, or_left_comm,
      or_assoc]

end

/-- Absorption writes the cells with an identity in their address, and no others. -/
theorem writes_absorption3 (j : Triple) :
    (∃ w ∈ Rules.absorption3.writes, j = w.1) ↔ .identity ∈ Address.toList j := by
  obtain ⟨a, b, c⟩ := j
  simp only [Rules.absorption3, List.mem_flatMap, Morphism.mem_all, true_and, List.mem_cons,
    List.not_mem_nil, or_false, Address.toList]
  constructor
  · rintro ⟨w, ⟨x, y, rfl | rfl | rfl⟩, h⟩ <;> cases h
    · exact .inl rfl
    · exact .inr (.inl rfl)
    · exact .inr (.inr rfl)
  · rintro (rfl | rfl | rfl)
    · exact ⟨_, ⟨b, c, .inl rfl⟩, rfl⟩
    · exact ⟨_, ⟨a, c, .inr (.inl rfl)⟩, rfl⟩
    · exact ⟨_, ⟨a, b, .inr (.inr rfl)⟩, rfl⟩

/-- In the table of all rules a cell is defined iff the identity is in its address:
    the rules behind absorption only override. -/
theorem isSome_cell_standard3 (j : Triple) :
    (standard3.cell j).isSome ↔ .identity ∈ Address.toList j := by
  rw [standard3, isSome_cell_build, Rules.all3, List.exists_mem_cons_iff, writes_absorption3]
  refine or_iff_left_of_imp ?_
  rintro ⟨r, hr, w, hw, rfl⟩
  simp only [List.mem_cons, List.not_mem_nil, or_false] at hr
  rcases hr with rfl | rfl
  · rw [List.mem_singleton.1 hw]
    exact List.mem_cons_self
  · rw [List.mem_singleton.1 hw]
    exact List.mem_cons_of_mem _ List.mem_cons_self

end Table

end Heptad
