import Heptad.Json.Basic

/-!
# The numbers of a tree

Of all that stands in a tree only its numbers can keep it from being written: an
integer that is too long, or a floating-point number that is not finite.

* `isFinite_arr`, `isFinite_obj`: the numbers of a tree are finite if those of its
  parts are;
* `fault?_eq_none_iff`: a tree is written iff each of its numbers can be.
-/

namespace Heptad

/-- Whether a number is not beyond the finite ones. -/
def Number.isFinite : Number → Bool
  | int _ => true
  | float x => x.isFinite

namespace Json

/-- Whether all numbers of a tree are finite. -/
def isFinite (j : Json) : Bool := j.numbers.all Number.isFinite

theorem isFinite_float (x : Binary64) : (float x).isFinite = x.isFinite := Bool.and_true _

theorem itemNumbers_eq_flatMap (js : List Json) : itemNumbers js = js.flatMap numbers := by
  induction js with
  | nil => rfl
  | cons j js ih => rw [itemNumbers, ih, List.flatMap_cons]

theorem memberNumbers_eq_flatMap (ms : List (String × Json)) :
    memberNumbers ms = ms.flatMap fun m => m.2.numbers := by
  induction ms with
  | nil => rfl
  | cons m ms ih => rw [memberNumbers, ih, List.flatMap_cons]

/-- The numbers of an array are finite iff those of its items are. -/
theorem isFinite_arr {js : List Json} : (arr js).isFinite = true ↔ ∀ j ∈ js, j.isFinite = true := by
  rw [isFinite, numbers, itemNumbers_eq_flatMap, List.all_flatMap, List.all_eq_true]
  rfl

/-- The numbers of an object are finite iff those of its members are. -/
theorem isFinite_obj {ms : List (String × Json)} :
    (obj ms).isFinite = true ↔ ∀ m ∈ ms, m.2.isFinite = true := by
  rw [isFinite, numbers, memberNumbers_eq_flatMap, List.all_flatMap, List.all_eq_true]
  rfl

/-! ## Trees that are written -/

/-- A number that can be written is finite. -/
theorem isFinite_of_numberFault? {n : Number} (h : numberFault? n = none) : n.isFinite = true := by
  cases n with
  | int i => rfl
  | float x =>
    rw [numberFault?] at h
    split at h
    · assumption
    · cases h

/-- A tree is written iff each of its numbers can be. -/
theorem fault?_eq_none_iff {j : Json} :
    j.fault? = none ↔ ∀ n ∈ j.numbers, numberFault? n = none :=
  List.findSome?_eq_none_iff

/-- The numbers of a tree that is written are finite. -/
theorem isFinite_of_fault? {j : Json} (h : j.fault? = none) : j.isFinite = true :=
  List.all_eq_true.2 fun n hn => isFinite_of_numberFault? (fault?_eq_none_iff.1 h n hn)

end Json

end Heptad
