import Heptad.Binary64.Decimal
import Heptad.Text.Blank

/-!
# Reading floating-point numbers

A numeral is an optional sign and either digits, with an optional point and an
optional exponent, or one of the words for infinity and not-a-number in any
case. Single underscores may stand between digits and blanks around the whole.
-/

namespace Heptad

namespace Numeral

/-- The exponent part after its `e`: an optional sign and digits. -/
def exponent? (cs : List Char) : Option Int := do
  let (negative, digits) := sign cs
  let n ← ofDigits? digits
  return if negative then -(n : Int) else n

/-- What follows the digits of a decimal numeral: nothing, or an exponent part. -/
def scale? : List Char → Option Int
  | [] => some 0
  | c :: rest => if c = 'e' ∨ c = 'E' then exponent? rest else none

/-- An unsigned decimal numeral. -/
def decimal? (cs : List Char) : Option Decimal := do
  let whole := cs.takeWhile Char.isDigit
  let afterWhole := cs.dropWhile Char.isDigit
  let (fraction, afterFraction) := match afterWhole with
    | '.' :: rest => (rest.takeWhile Char.isDigit, rest.dropWhile Char.isDigit)
    | _ => ([], afterWhole)
  let digits ← ofDigits? (whole ++ fraction)
  let exponent ← scale? afterFraction
  return ⟨digits, exponent - fraction.length⟩

end Numeral

namespace Binary64

/-- The number an unsigned numeral names, with the given sign. -/
def ofUnsigned? (negative : Bool) (cs : List Char) : Option Binary64 :=
  let word := String.ofList (cs.map Char.toLower)
  if word = "inf" ∨ word = "infinity" then some (infinite negative)
  else if word = "nan" then some nan
  else (Numeral.decimal? cs).map (ofDecimal negative)

/-- The number named by a text whose blanks and digits are those of ASCII. -/
def ofAscii? (cs : List Char) : Option Binary64 := do
  let joined ← Numeral.join? (Numeral.trim cs)
  let (negative, rest) := Numeral.sign joined
  ofUnsigned? negative rest

/-- The number a text names. -/
def ofText? (s : String) : Option Binary64 := ofAscii? (s.toList.map Numeral.fold)

end Binary64

end Heptad
