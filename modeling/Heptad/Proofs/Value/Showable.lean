import Heptad.Value.Arithmetic

/-!
# Values without a text

A value that holds an integer of more than `maxDigits` digits cannot be shown. The
least positive one is `huge`. It is the square of `hugeRoot`, which has about half as
many digits, so values that can be shown may have a product that cannot.
-/

namespace Heptad

-- Powers of naturals are those of the core library, whatever else is imported.
attribute [local instance (high)] instPowNat

namespace Value

/-- The least positive integer that has no text. -/
def huge : Value := .int (10 ^ maxDigits : Nat)

/-- The root of `huge`, which is short enough to have a text. -/
def hugeRoot : Value := .int (10 ^ (maxDigits / 2) : Nat)

theorem isShowable_huge : huge.isShowable = false := not_hasDecimal_pow (Nat.le_refl _)

theorem areShowable_of_huge_mem {vs : List Value} (h : huge ∈ vs) : areShowable vs = false := by
  rw [← Bool.not_eq_true, areShowable_iff]
  exact fun hvs => Bool.false_ne_true (isShowable_huge.symm.trans (hvs huge h))

theorem hugeRoot_ne_reentrant (steps : List Value) : hugeRoot ≠ .reentrant steps :=
  fun h => nomatch (h : int _ = .reentrant steps)

/-- The square of `hugeRoot`. -/
theorem product?_hugeRoot : hugeRoot.product? hugeRoot = .ok huge := by
  have hpow (n more : Nat) (h : n + n = more) : 10 ^ n * 10 ^ n = 10 ^ more := by
    rw [← Nat.pow_add, h]
  have hint : ((10 ^ (maxDigits / 2) : Nat) : Int) * (10 ^ (maxDigits / 2) : Nat) =
      (10 ^ maxDigits : Nat) :=
    (Int.natCast_mul _ _).symm.trans (congrArg Nat.cast (hpow _ _ rfl))
  exact congrArg (fun i => Except.ok (int i)) hint

end Value

end Heptad
