import Heptad.Binary64.Basic

/-!
# Decimals

A decimal is a whole number of some power of ten, written as digits and the
place of a point. `Magnitude.ofDecimal?` rounds one to binary, and
`Magnitude.shortest` goes back: the fewest digits that round to the given
number, and of those the nearest. That they do is checked for every candidate.
-/

namespace Heptad

-- Powers of naturals are those of the core library, whatever else is imported.
attribute [local instance (high)] instPowNat

/-- The number `digits · 10 ^ exponent`. -/
structure Decimal where
  digits : Nat
  exponent : Int
  deriving DecidableEq

/-- The written number `0.d₁d₂… · 10 ^ point`. -/
structure Digits where
  chars : List Char
  point : Int
  deriving DecidableEq

/-- How many digits a number is written with. -/
def digitCount (n : Nat) : Nat := (Nat.toDigits 10 n).length

/-- The decimal that is written. -/
def Digits.decimal (d : Digits) : Decimal :=
  ⟨Nat.ofDigitChars 10 d.chars 0, d.point - d.chars.length⟩

namespace Decimal

/-- The quotient of a decimal by one unit, as two whole numbers. -/
def inUnits (d : Decimal) : Nat × Nat :=
  (d.digits * 10 ^ d.exponent.toNat * Magnitude.scale, 10 ^ (-d.exponent).toNat)

/-- The place of the point before the first digit. -/
def point (d : Decimal) : Int := digitCount d.digits + d.exponent

/-- A decimal written without trailing zeros; zero has one digit. -/
def written (d : Decimal) : Digits :=
  if d.digits = 0 then ⟨['0'], 1⟩
  else ⟨((Nat.toDigits 10 d.digits).reverse.dropWhile (· = '0')).reverse, d.point⟩

end Decimal

namespace Magnitude

/-- The magnitude nearest to a decimal; none beyond the largest. The powers of
    ten that decide by themselves are told apart first. -/
def ofDecimal? (d : Decimal) : Option Magnitude :=
  if d.digits = 0 ∨ d.point < -330 then some .zero
  else if 310 < d.point then none
  else nearest? d.inUnits.1 d.inUnits.2

/-- The quotient of a magnitude by `10 ^ exponent`, as two whole numbers. -/
def quotientBy (m : Magnitude) (exponent : Int) : Nat × Nat :=
  (m.units * 10 ^ (-exponent).toNat, scale * 10 ^ exponent.toNat)

/-- Whether a magnitude is below `10 ^ k`. -/
def below (m : Magnitude) (k : Int) : Bool := (m.quotientBy k).1 < (m.quotientBy k).2

/-- The least `k` with the magnitude below `10 ^ k`, found next to an estimate
    from the binary length. -/
def point (m : Magnitude) : Int :=
  let k := ((m.units.log2 : Int) - 1074) * 30103 / 100000
  if m.below k then k else if m.below (k + 1) then k + 1 else k + 2

/-- Whether written digits round to a magnitude. -/
def isReadFrom (m : Magnitude) (d : Digits) : Bool := ofDecimal? d.decimal = some m

/-- The `n` digits next to a magnitude that round to it: none, the one, or the
    nearer of two, a tie going to the even digit. -/
def withDigits? (m : Magnitude) (n : Nat) : Option Digits :=
  let exponent := m.point - n
  let (num, den) := m.quotientBy exponent
  let floor := num / den
  let twice := 2 * (num % den)
  -- the two neighbours of the magnitude on the grid of `n` digits
  let lower := Decimal.written ⟨floor, exponent⟩
  let upper := Decimal.written ⟨floor + 1, exponent⟩
  match m.isReadFrom lower, m.isReadFrom upper with
  | true, true =>
    some (if twice < den ∨ (twice = den ∧ floor % 2 = 0) then lower else upper)
  | true, false => some lower
  | false, true => some upper
  | false, false => none

/-- A magnitude written out in full. -/
def exact (m : Magnitude) : Digits := Decimal.written ⟨m.units * 5 ^ (1074 : Nat), -1074⟩

/-- The fewest digits that round to a magnitude, the nearest of them. -/
def shortest (m : Magnitude) : Digits :=
  if m.mant = 0 then ⟨['0'], 1⟩
  else ((List.range 17).findSome? fun n => m.withDigits? (n + 1)).getD m.exact

/-- A magnitude rounded to `n` digits, a half going to the even one. -/
def roundedTo (m : Magnitude) (n : Nat) : Digits :=
  if m.mant = 0 then ⟨['0'], 1⟩
  else
    let exponent := m.point - n
    Decimal.written ⟨halfEven (m.quotientBy exponent).1 (m.quotientBy exponent).2, exponent⟩

end Magnitude

/-- The number with the given sign nearest to a decimal. -/
def Binary64.ofDecimal (negative : Bool) (d : Decimal) : Binary64 :=
  match Magnitude.ofDecimal? d with
  | some m => finite negative m
  | none => infinite negative

end Heptad
