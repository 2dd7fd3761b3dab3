/-!
# Binary floating point

The numbers of a field are binary floating-point numbers of double precision,
with signed zeros, two infinities and one not-a-number. A finite number is
kept as an exact multiple `mant · 2 ^ shift` of the *unit*, the least positive
number `2 ^ (-1074)`, so every finite number is a whole number of units and
nothing below is approximate.

All arithmetic is the exact operation followed by one rounding,
`Magnitude.nearest?`: to the nearest number, of two equally near ones to the
one with the even significand, and to nothing beyond the largest number.
-/

namespace Heptad

-- Powers of naturals are those of the core library, whatever else is imported.
attribute [local instance (high)] instPowNat

/-- The quotient of two numbers rounded to a whole one, a half going to the
    even neighbour. -/
def halfEven (num den : Nat) : Nat :=
  let quotient := num / den
  let twice := 2 * (num % den)
  if twice < den ∨ (twice = den ∧ quotient % 2 = 0) then quotient else quotient + 1

/-- The absolute value of a finite number: `mant · 2 ^ shift` units, with the
    significand as long as the shift allows. -/
structure Magnitude where
  /-- The significand. -/
  mant : Nat
  /-- The exponent, counted from the unit. -/
  shift : Nat
  mant_lt : mant < 2 ^ (53 : Nat)
  shift_le : shift ≤ 2045
  normal : 2 ^ (52 : Nat) ≤ mant ∨ shift = 0
  deriving DecidableEq

namespace Magnitude

/-- The number of units in one. -/
def scale : Nat := 2 ^ (1074 : Nat)

/-- How many units a magnitude is. -/
def units (m : Magnitude) : Nat := m.mant * 2 ^ m.shift

/-- A magnitude from its parts, if they fit. -/
def mk? (mant shift : Nat) : Option Magnitude :=
  if h : mant < 2 ^ (53 : Nat) ∧ shift ≤ 2045 ∧ (2 ^ (52 : Nat) ≤ mant ∨ shift = 0) then
    some ⟨mant, shift, h.1, h.2.1, h.2.2⟩
  else none

/-- The magnitude nearest to `num / den` units; none beyond the largest. -/
def nearest? (num den : Nat) : Option Magnitude :=
  -- the shift that leaves at most 53 binary digits before the point
  let shift := (num / den).log2 - 52
  let mant := halfEven num (den * 2 ^ shift)
  -- rounding up may have made the significand one digit too long
  if mant = 2 ^ (53 : Nat) then mk? (2 ^ (52 : Nat)) (shift + 1) else mk? mant shift

/-- The magnitude of zero. -/
def zero : Magnitude := ⟨0, 0, by decide, by decide, .inr rfl⟩

/-- The magnitude of one. -/
def one : Magnitude := ⟨2 ^ (52 : Nat), 1022, by decide, by decide, .inl (Nat.le_refl _)⟩

end Magnitude

/-- A binary floating-point number of double precision. -/
inductive Binary64 where
  /-- Not a number. -/
  | nan
  /-- One of the two infinities. -/
  | infinite (negative : Bool)
  /-- A finite number; zero has a sign too. -/
  | finite (negative : Bool) (magnitude : Magnitude)
  deriving DecidableEq

namespace Binary64

/-- Positive zero. -/
def zero : Binary64 := finite false .zero

/-- One. -/
def one : Binary64 := finite false .one

/-- The number with the given sign nearest to `num / den` units. -/
def round (negative : Bool) (num den : Nat) : Binary64 :=
  match Magnitude.nearest? num den with
  | some m => finite negative m
  | none => infinite negative

/-- A whole number of units, rounded; an exact zero is positive. -/
def ofUnits (i : Int) : Binary64 := round (i < 0) i.natAbs 1

/-- The exact value of a number with sign, in units. -/
def signedUnits (negative : Bool) (m : Magnitude) : Int :=
  if negative then -(m.units : Int) else m.units

/-- The number of the opposite sign. -/
def neg : Binary64 → Binary64
  | nan => nan
  | infinite s => infinite !s
  | finite s m => finite (!s) m

/-- The rounded sum. Two zeros make a negative zero only if both are negative. -/
def add : Binary64 → Binary64 → Binary64
  | infinite s, infinite t => if s = t then infinite s else nan
  | infinite s, finite _ _ => infinite s
  | finite _ _, infinite t => infinite t
  | finite s m, finite t n =>
    if m.mant = 0 ∧ n.mant = 0 then finite (s && t) .zero
    else ofUnits (signedUnits s m + signedUnits t n)
  | _, _ => nan

/-- The rounded difference. -/
def sub (x y : Binary64) : Binary64 := x.add y.neg

/-- The rounded product. -/
def mul : Binary64 → Binary64 → Binary64
  | infinite s, infinite t => infinite (s != t)
  | infinite s, finite t n => if n.mant = 0 then nan else infinite (s != t)
  | finite s m, infinite t => if m.mant = 0 then nan else infinite (s != t)
  | finite s m, finite t n => round (s != t) (m.units * n.units) Magnitude.scale
  | _, _ => nan

/-- An integer as a floating-point number, rounded; none beyond the largest. -/
def ofInt? (i : Int) : Option Binary64 :=
  (Magnitude.nearest? (i.natAbs * Magnitude.scale) 1).map (finite (i < 0))

/-- Whether a number is neither infinite nor not-a-number. -/
def isFinite : Binary64 → Bool
  | finite _ _ => true
  | _ => false

/-- Whether a number is positive or negative zero. -/
def isZero : Binary64 → Bool
  | finite _ m => m.mant = 0
  | _ => false

end Binary64

end Heptad
