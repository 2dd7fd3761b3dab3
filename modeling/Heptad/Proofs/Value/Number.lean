import Mathlib.Data.List.Forall2
import Heptad.Proofs.Number
import Heptad.Value.Compare

/-!
# Values that count as numbers

Integers, truth values, morphisms and floating-point numbers are compared with each other
by the numbers they count as, of whatever type they are.

* `order_of_number?`, `eq_of_number?`: two values are compared as their numbers;
* `Counts`: several values count as the given numbers.
-/

namespace Heptad

namespace Value

variable {v w : Value} {m n : Number}

/-- Numbers are ordered as such. -/
theorem order_of_number? (d : Direction) (hv : v.number? = some m) (hw : w.number? = some n) :
    order d v w = .ok (d.holds Number.lt m n) := by
  rw [order.eq_def]
  split
  · cases hv
  · cases hv
  · cases hv
  · cases hv
  · rw [hv, hw]

theorem lt?_of_number? (hv : v.number? = some m) (hw : w.number? = some n) :
    v.lt? w = .ok (m.lt n) :=
  order_of_number? .less hv hw

theorem gt?_of_number? (hv : v.number? = some m) (hw : w.number? = some n) :
    v.gt? w = .ok (n.lt m) :=
  order_of_number? .greater hv hw

/-- Numbers are equal as such. -/
theorem eq_of_number? (hv : v.number? = some m) (hw : w.number? = some n) :
    v.eq w = m.eq n := by
  rw [Value.eq.eq_def]
  split
  · cases hv
  · cases hv
  · cases hv
  · cases hv
  · cases hv
  · cases hv
  · cases hv
  · cases hv
  · cases hv
  · rw [hv, hw]

/-- Several values count as these numbers, one by one. -/
def Counts (vs : List Value) (ns : List Number) : Prop :=
  List.Forall₂ (fun v n => v.number? = some n) vs ns

end Value

end Heptad
