/-!
# Base sixteen

Codes of characters and bytes are written with a fixed number of digits in base
sixteen, so that one ends where the next thing begins.
-/

namespace Heptad

/-- The last `width` digits of a number in base sixteen. -/
def hex : Nat → Nat → List Char
  | 0, _ => []
  | width + 1, n => hex width (n / 16) ++ [Nat.digitChar (n % 16)]

theorem length_hex (width n : Nat) : (hex width n).length = width := by
  induction width generalizing n with
  | zero => rfl
  | succ width ih => simp [hex, ih]

end Heptad
