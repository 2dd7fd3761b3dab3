import Mathlib.Data.List.Nodup
import Heptad.Stack.Weight

/-!
# Occurrences of steps

Equal steps can stand at several places of a derivation. A *place* says which of
them is meant: it is the number of the step in its derivation, after the numbers
of the steps this derivation is nested in. A literal that holds a sub-derivation
counts as a step the sub-derivation is nested in.

* `length_occurrences`: there are as many occurrences as the derivation weighs;
* `nodup_places`: no two of them stand at the same place.
-/

namespace Heptad.Stack

/-- The numbers of steps, from the outermost derivation to the innermost. -/
abbrev Place := List Nat

mutual

/-- The occurrences in the steps of a derivation at a place, which are numbered
    from `n` on. -/
def occurrences (p : Place) (n : Nat) : List Value → List (Place × Value)
  | [] => []
  | v :: vs => (p ++ [n], v) :: innerOccurrences (p ++ [n]) v ++ occurrences p (n + 1) vs

/-- The occurrences inside a step at a place. -/
def innerOccurrences (p : Place) : Value → List (Place × Value)
  | .literal v => heldOccurrences p v
  | .sub steps => occurrences p 0 steps
  | _ => []

/-- The occurrences in a value from a place, if it can become a branch. -/
def heldOccurrences (p : Place) : Value → List (Place × Value)
  | .sub steps => occurrences p 0 steps
  | _ => []

end

/-! ## Their number -/

mutual

/-- There are as many occurrences of steps in a derivation as it weighs. -/
theorem length_occurrences (p : Place) (n : Nat) :
    (vs : List Value) → (occurrences p n vs).length = stepsWeight vs
  | [] => rfl
  | v :: vs => by
    rw [occurrences, stepsWeight, List.cons_append, List.length_cons, List.length_append,
      length_occurrences p (n + 1) vs, Nat.add_right_comm, length_innerOccurrences _ v]

theorem length_innerOccurrences (p : Place) :
    (v : Value) → (innerOccurrences p v).length + 1 = stepWeight v
  | .literal v => by
    rw [innerOccurrences, stepWeight, length_heldOccurrences p v, Nat.add_comm]
  | .sub steps => by
    rw [innerOccurrences, stepWeight, length_occurrences p 0 steps, Nat.add_comm]
  | .null | .bool _ | .int _ | .float _ | .str _ | .bytes _ | .list _ | .tuple _ | .mapping _
  | .morphism _ | .noRule | .reentrant _ => rfl

theorem length_heldOccurrences (p : Place) :
    (v : Value) → (heldOccurrences p v).length = pushWeight v
  | .sub steps => length_occurrences p 0 steps
  | .null | .bool _ | .int _ | .float _ | .str _ | .bytes _ | .list _ | .tuple _ | .mapping _
  | .morphism _ | .literal _ | .noRule | .reentrant _ => rfl

end

/-- The result of a primitive holds no steps. -/
theorem heldOccurrences_of_call {ε : Type} {p : Primitive} {s : Session ε} {args : List Value}
    {v : Value} (h : p.call s.callback args = .ok v) (place : Place) :
    heldOccurrences place v = [] :=
  List.eq_nil_of_length_eq_zero ((length_heldOccurrences place v).trans (pushWeight_of_call h))

/-! ## Their places -/

mutual

/-- The occurrences in a derivation stand at the places of its steps or below. -/
theorem prefix_of_mem {p : Place} {n : Nat} {x : Place × Value} :
    (vs : List Value) → x ∈ occurrences p n vs → ∃ k, n ≤ k ∧ (p ++ [k]) <+: x.1
  | [], h => nomatch h
  | v :: vs, h => by
    rw [occurrences] at h
    rcases List.mem_append.1 h with h | h
    · rcases List.mem_cons.1 h with rfl | h
      · exact ⟨n, Nat.le_refl n, List.prefix_refl _⟩
      · obtain ⟨k, hk⟩ := prefix_of_mem_inner v h
        exact ⟨n, Nat.le_refl n, (List.prefix_append _ [k]).trans hk⟩
    · obtain ⟨k, hle, hk⟩ := prefix_of_mem vs h
      exact ⟨k, Nat.le_of_succ_le hle, hk⟩

theorem prefix_of_mem_inner {p : Place} {x : Place × Value} :
    (v : Value) → x ∈ innerOccurrences p v → ∃ k, (p ++ [k]) <+: x.1
  | .literal v, h => prefix_of_mem_held v h
  | .sub steps, h => (prefix_of_mem steps h).imp fun _ => And.right
  | .null, h | .bool _, h | .int _, h | .float _, h | .str _, h | .bytes _, h | .list _, h
  | .tuple _, h | .mapping _, h | .morphism _, h | .noRule, h | .reentrant _, h => nomatch h

theorem prefix_of_mem_held {p : Place} {x : Place × Value} :
    (v : Value) → x ∈ heldOccurrences p v → ∃ k, (p ++ [k]) <+: x.1
  | .sub steps, h => (prefix_of_mem steps h).imp fun _ => And.right
  | .null, h | .bool _, h | .int _, h | .float _, h | .str _, h | .bytes _, h | .list _, h
  | .tuple _, h | .mapping _, h | .morphism _, h | .literal _, h | .noRule, h
  | .reentrant _, h => nomatch h

end

/-- What occurs inside a step does not stand at its place. -/
theorem place_notMem_inner (p : Place) (v : Value) :
    p ∉ (innerOccurrences p v).map Prod.fst := by
  intro h
  obtain ⟨x, hx, rfl⟩ := List.mem_map.1 h
  obtain ⟨k, hk⟩ := prefix_of_mem_inner v hx
  have := hk.length_le
  rw [List.length_append] at this
  exact Nat.not_succ_le_self _ this

/-- A step and what occurs inside of it stand apart from the steps behind it. -/
theorem places_disjoint (p : Place) (n : Nat) (v : Value) (vs : List Value) :
    (((p ++ [n], v) :: innerOccurrences (p ++ [n]) v).map Prod.fst).Disjoint
      ((occurrences p (n + 1) vs).map Prod.fst) := by
  intro q hv hvs
  obtain ⟨x, hx, rfl⟩ := List.mem_map.1 hv
  obtain ⟨y, hy, hxy⟩ := List.mem_map.1 hvs
  obtain ⟨k, hle, hk⟩ := prefix_of_mem vs hy
  have hn : (p ++ [n]) <+: x.1 := by
    rcases List.mem_cons.1 hx with rfl | hx
    · exact List.prefix_refl _
    · obtain ⟨j, hj⟩ := prefix_of_mem_inner v hx
      exact (List.prefix_append _ [j]).trans hj
  rw [hxy] at hk
  have heq := (List.prefix_of_prefix_length_le hk hn (by simp)).eq_of_length (by simp)
  obtain rfl := (List.cons.inj (List.append_cancel_left heq)).1
  exact Nat.not_succ_le_self _ hle

mutual

/-- No two occurrences stand at the same place. -/
theorem nodup_places (p : Place) (n : Nat) :
    (vs : List Value) → ((occurrences p n vs).map Prod.fst).Nodup
  | [] => List.nodup_nil
  | v :: vs => by
    rw [occurrences, List.map_append]
    exact (List.nodup_cons.2 ⟨place_notMem_inner _ v, nodup_innerPlaces _ v⟩).append
      (nodup_places p (n + 1) vs) (places_disjoint p n v vs)

theorem nodup_innerPlaces (p : Place) : (v : Value) → ((innerOccurrences p v).map Prod.fst).Nodup
  | .literal v => nodup_heldPlaces p v
  | .sub steps => nodup_places p 0 steps
  | .null | .bool _ | .int _ | .float _ | .str _ | .bytes _ | .list _ | .tuple _ | .mapping _
  | .morphism _ | .noRule | .reentrant _ => List.nodup_nil

theorem nodup_heldPlaces (p : Place) : (v : Value) → ((heldOccurrences p v).map Prod.fst).Nodup
  | .sub steps => nodup_places p 0 steps
  | .null | .bool _ | .int _ | .float _ | .str _ | .bytes _ | .list _ | .tuple _ | .mapping _
  | .morphism _ | .literal _ | .noRule | .reentrant _ => List.nodup_nil

end

end Heptad.Stack
