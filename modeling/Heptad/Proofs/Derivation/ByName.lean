import Heptad.Derivation.Canonical
import Heptad.Proofs.Derivation.Alike

/-!
# Members in the order of their names

Sorting by names keeps the order of members with the same name and forgets that
of the others.

* `byName_eq_iff`: members are sorted into the same list iff they are reordered.
-/

namespace Heptad

namespace Derivation

variable {m n : String × Json}

theorem insertMember_of_lt (h : n.1 < m.1) (ns : List (String × Json)) :
    insertMember m (n :: ns) = n :: insertMember m ns := if_pos h

theorem insertMember_of_not_lt (h : ¬n.1 < m.1) (ns : List (String × Json)) :
    insertMember m (n :: ns) = m :: n :: ns := if_neg h

/-- The order in which two members are put among others does not show. -/
theorem insertMember_comm_of_lt (h : m.1 < n.1) (ms : List (String × Json)) :
    insertMember m (insertMember n ms) = insertMember n (insertMember m ms) := by
  have hnot : ¬n.1 < m.1 := String.lt_asymm h
  induction ms with
  | nil =>
    rw [insertMember, insertMember, insertMember_of_not_lt hnot, insertMember_of_lt h]
    rfl
  | cons l ls ih =>
    -- Where `l` stands decides which of the two are put in front of it.
    by_cases hm : l.1 < m.1
    · have hn := String.lt_trans hm h
      rw [insertMember_of_lt hn, insertMember_of_lt hm, insertMember_of_lt hm,
        insertMember_of_lt hn, ih]
    · rw [insertMember_of_not_lt hm, insertMember_of_lt h]
      by_cases hn : l.1 < n.1
      · rw [insertMember_of_lt hn, insertMember_of_not_lt hm]
      · rw [insertMember_of_not_lt hn, insertMember_of_not_lt hnot]

theorem insertMember_comm (h : m.1 ≠ n.1) (ms : List (String × Json)) :
    insertMember m (insertMember n ms) = insertMember n (insertMember m ms) := by
  by_cases hlt : m.1 < n.1
  · exact insertMember_comm_of_lt hlt ms
  by_cases hgt : n.1 < m.1
  · exact (insertMember_comm_of_lt hgt ms).symm
  · exact absurd (String.le_antisymm (String.not_lt.1 hgt) (String.not_lt.1 hlt)) h

/-- Putting a member among others moves it past members with other names. -/
theorem reordered_insertMember (m : String × Json) (ms : List (String × Json)) :
    Reordered (insertMember m ms) (m :: ms) := by
  induction ms with
  | nil => exact .refl [m]
  | cons n ns ih =>
    by_cases h : n.1 < m.1
    · rw [insertMember_of_lt h]
      have hne : n.1 ≠ m.1 := fun he => String.lt_irrefl _ (he ▸ h)
      exact (Reordered.cons n ih).trans (.swap ns hne)
    · rw [insertMember_of_not_lt h]
      exact .refl _

theorem reordered_byName (ms : List (String × Json)) : Reordered (byName ms) ms := by
  induction ms with
  | nil => exact .refl []
  | cons m ms ih => exact (reordered_insertMember m (byName ms)).trans (.cons m ih)

theorem byName_of_reordered {ms ns : List (String × Json)} (h : Reordered ms ns) :
    byName ms = byName ns := by
  induction h with
  | refl => rfl
  | swap ms hne => exact insertMember_comm hne (byName ms)
  | cons m _ ih => exact congrArg (insertMember m) ih
  | trans _ _ ih ih' => exact ih.trans ih'

/-- Members are sorted into the same list iff they are the same up to order. -/
theorem byName_eq_iff {ms ns : List (String × Json)} : byName ms = byName ns ↔ Reordered ms ns := by
  refine ⟨fun h => ?_, byName_of_reordered⟩
  have hms := (reordered_byName ms).symm
  rw [h] at hms
  exact hms.trans (reordered_byName ns)

end Derivation

end Heptad
