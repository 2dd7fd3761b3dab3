/-!
# Integers written in decimal

An integer of more than `maxDigits` decimal digits has no text, nor is one read
off a text, as both take a time that grows with the square of their number.
Whatever shows such an integer fails.
-/

namespace Heptad

-- Powers of naturals are those of the core library, whatever else is imported.
attribute [local instance (high)] instPowNat

/-- The most decimal digits an integer is written with. -/
def maxDigits : Nat := 4300

/-- Whether a number has no more decimal digits than given. -/
def fits : Nat → Nat → Bool
  | 0, n => n == 0
  | digits + 1, n => if n = 0 then true else fits digits (n / 10)

/-- Whether an integer has few enough digits to be written. -/
def hasDecimal (i : Int) : Bool := fits maxDigits i.natAbs

theorem fits_iff {digits n : Nat} : fits digits n = true ↔ n < 10 ^ digits := by
  induction digits generalizing n with
  | zero => rw [fits, beq_iff_eq, Nat.pow_zero, Nat.lt_one_iff]
  | succ digits ih =>
    rw [fits]
    split
    · rename_i h
      exact iff_of_true rfl (h ▸ Nat.pow_pos (Nat.succ_pos 9))
    · rw [ih, Nat.div_lt_iff_lt_mul (Nat.succ_pos 9), ← Nat.pow_succ]

theorem hasDecimal_iff {i : Int} : hasDecimal i = true ↔ i.natAbs < 10 ^ maxDigits := fits_iff

/-- An integer has a text if one at least as far from zero has. -/
theorem hasDecimal_of_natAbs_le {i j : Int} (h : i.natAbs ≤ j.natAbs) (hj : hasDecimal j = true) :
    hasDecimal i = true :=
  hasDecimal_iff.2 (Nat.lt_of_le_of_lt h (hasDecimal_iff.1 hj))

theorem not_fits_pow {digits more : Nat} (h : digits ≤ more) : fits digits (10 ^ more) = false := by
  rw [← Bool.not_eq_true, fits_iff]
  exact Nat.not_lt.2 (Nat.pow_le_pow_right (Nat.succ_pos 9) h)

/-- Powers of ten from that of the limit on do not have one. -/
theorem not_hasDecimal_pow {digits : Nat} (h : maxDigits ≤ digits) :
    hasDecimal ((10 ^ digits : Nat) : Int) = false := not_fits_pow h

end Heptad
