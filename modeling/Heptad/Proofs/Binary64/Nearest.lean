import Heptad.Binary64.Basic

/-!
# The nearest number

Rounding looks at a quotient and not at the two numbers it is given by:

* `nearest?_congr`: equal quotients have the same nearest magnitude;
* `nearest?_units`: a magnitude is nearest to its own number of units.
-/

namespace Heptad

-- Powers of naturals are those of the core library, whatever else is imported.
attribute [local instance (high)] instPowNat

/-- Rounding a quotient to a whole number does not depend on common factors. -/
theorem halfEven_mul_right {k : Nat} (hk : 0 < k) (num den : Nat) :
    halfEven (num * k) (den * k) = halfEven num den := by
  have hlt (x y : Nat) : x * k < y * k ↔ x < y := Nat.mul_lt_mul_right hk
  have heq (x y : Nat) : x * k = y * k ↔ x = y := Nat.mul_left_inj (Nat.ne_of_gt hk)
  simp only [halfEven, Nat.mul_div_mul_right _ _ hk, Nat.mul_mod_mul_right, ← Nat.mul_assoc, hlt,
    heq]

/-- A whole quotient is its own rounding. -/
theorem halfEven_mul_self {den : Nat} (hd : 0 < den) (n : Nat) : halfEven (n * den) den = n := by
  rw [halfEven, Nat.mul_mod_left, Nat.mul_div_cancel n hd]
  exact if_pos (Or.inl hd)

namespace Magnitude

theorem nearest?_mul_right {k : Nat} (hk : 0 < k) (num den : Nat) :
    nearest? (num * k) (den * k) = nearest? num den := by
  have hround (s : Nat) : halfEven (num * k) (den * k * s) = halfEven num (den * s) := by
    rw [Nat.mul_right_comm, halfEven_mul_right hk]
  simp only [nearest?, Nat.mul_div_mul_right _ _ hk, hround]

/-- Equal quotients have the same nearest magnitude. -/
theorem nearest?_congr {num den num' den' : Nat} (hd : 0 < den) (hd' : 0 < den')
    (h : num * den' = num' * den) : nearest? num den = nearest? num' den' := by
  rw [← nearest?_mul_right hd' num den, ← nearest?_mul_right hd num' den', h, Nat.mul_comm den]

/-- The shift of a magnitude can be told from its number of units. -/
theorem log2_units_sub (m : Magnitude) : m.units.log2 - 52 = m.shift := by
  -- A normal magnitude fills all bits of its mantissa; any other is not shifted.
  rcases m.normal with h | h
  · have hlow : 2 ^ (52 + m.shift) ≤ m.units := by
      rw [units, Nat.pow_add]
      exact Nat.mul_le_mul_right _ h
    have hhigh : m.units < 2 ^ (53 + m.shift) := by
      rw [units, Nat.pow_add]
      exact Nat.mul_lt_mul_of_pos_right m.mant_lt (Nat.two_pow_pos _)
    have hne : m.units ≠ 0 := Nat.ne_of_gt (Nat.lt_of_lt_of_le (Nat.two_pow_pos _) hlow)
    have h1 : 52 + m.shift ≤ m.units.log2 := (Nat.le_log2 hne).2 hlow
    have h2 : m.units.log2 < 53 + m.shift := (Nat.log2_lt hne).2 hhigh
    omega
  · have hmant : m.units = m.mant := by rw [units, h, Nat.pow_zero, Nat.mul_one]
    rw [hmant, h]
    by_cases hz : m.mant = 0
    · rw [hz]
      rfl
    · have := (Nat.log2_lt hz).2 m.mant_lt
      omega

/-- A magnitude is nearest to its own number of units. -/
theorem nearest?_units (m : Magnitude) : nearest? m.units 1 = some m := by
  have hround : halfEven m.units (1 * 2 ^ m.shift) = m.mant := by
    rw [units, Nat.one_mul, halfEven_mul_self (Nat.two_pow_pos _)]
  simp only [nearest?, Nat.div_one, log2_units_sub, hround]
  rw [if_neg (Nat.ne_of_lt m.mant_lt), mk?, dif_pos ⟨m.mant_lt, m.shift_le, m.normal⟩]

end Magnitude

end Heptad
