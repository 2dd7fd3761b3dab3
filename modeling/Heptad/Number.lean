import Heptad.Binary64.Basic

/-!
# Numbers

A number is an integer of any size or a floating-point number. The two are
compared by their exact values, without rounding either: `Number.extent?` puts
both on one scale, the whole numbers of units between two infinite ends, from
which only not-a-number is missing.
-/

namespace Heptad

/-- An integer or a floating-point number. -/
inductive Number where
  | int (i : Int)
  | float (x : Binary64)
  deriving DecidableEq

/-- A place on the line of exact values. -/
inductive Extent where
  /-- The lower end. -/
  | below
  /-- A whole number of units. -/
  | units (u : Int)
  /-- The upper end. -/
  | above
  deriving DecidableEq

/-- Whether one place lies before another. -/
def Extent.lt : Extent → Extent → Bool
  | below, below => false
  | below, _ => true
  | units u, units v => u < v
  | units _, above => true
  | units _, below => false
  | above, _ => false

/-- Where a floating-point number lies, if it is a number. -/
def Binary64.extent? : Binary64 → Option Extent
  | nan => none
  | infinite true => some .below
  | infinite false => some .above
  | finite s m => some (.units (signedUnits s m))

namespace Number

/-- Where a number lies, if it is one. -/
def extent? : Number → Option Extent
  | int i => some (.units (i * Magnitude.scale))
  | float x => x.extent?

/-- Equality of exact values; not-a-number equals nothing. -/
def eq (a b : Number) : Bool :=
  match a.extent?, b.extent? with
  | some x, some y => x = y
  | _, _ => false

/-- Order of exact values; not-a-number is below nothing and above nothing. -/
def lt (a b : Number) : Bool :=
  match a.extent?, b.extent? with
  | some x, some y => x.lt y
  | _, _ => false

/-- A number as a floating-point number; none for an integer beyond the largest. -/
def toFloat? : Number → Option Binary64
  | int i => Binary64.ofInt? i
  | float x => some x

end Number

end Heptad
