import Heptad.Binary64.Decimal

/-!
# Writing floating-point numbers

A number is written from its digits, without trailing zeros, and the place of
its point. Small exponents are written out, the others in scientific form;
where the one ends and the other begins is a matter of `Style`. The exact text
`Binary64.text` has the fewest digits that read back, the brief one
`Binary64.brief` at most six.
-/

namespace Heptad

/-- Which exponents are written out, and whether a whole number keeps its point. -/
structure Style where
  lowest : Int
  highest : Int
  pointed : Bool

namespace Style

/-- The style of exact texts: written out from `0.0001` up to below `10 ^ 16`,
    with the point kept. -/
def exact : Style := ⟨-4, 15, true⟩

/-- The style of brief texts: written out from `0.0001` up to below `10 ^ 6`,
    without a useless point. -/
def brief : Style := ⟨-4, 5, false⟩

end Style

/-- The exponent part of a scientific form: sign and at least two digits. -/
def exponentPart (e : Int) : List Char :=
  let digits := Nat.toDigits 10 e.natAbs
  'e' :: (if e < 0 then '-' else '+') :: (if digits.length < 2 then '0' :: digits else digits)

namespace Digits

/-- The digits before the point of a number written out. -/
def whole (d : Digits) : List Char :=
  if d.point ≤ 0 then ['0']
  else d.chars.take d.point.toNat ++ List.replicate (d.point.toNat - d.chars.length) '0'

/-- The digits behind the point of a number written out. -/
def fraction (d : Digits) : List Char :=
  List.replicate (-d.point).toNat '0' ++ d.chars.drop d.point.toNat

/-- A number written out. -/
def positional (d : Digits) (style : Style) : List Char :=
  match d.fraction with
  | [] => if style.pointed then d.whole ++ ['.', '0'] else d.whole
  | fraction => d.whole ++ '.' :: fraction

/-- A number in scientific form. -/
def scientific (d : Digits) : List Char :=
  match d.chars with
  | [] => []
  | [c] => c :: exponentPart (d.point - 1)
  | c :: rest => c :: '.' :: rest ++ exponentPart (d.point - 1)

/-- A number in the form its exponent asks for. -/
def write (d : Digits) (style : Style) : List Char :=
  if style.lowest ≤ d.point - 1 ∧ d.point - 1 ≤ style.highest then d.positional style
  else d.scientific

end Digits

namespace Binary64

/-- The text of a number whose magnitude is written with the given digits. -/
def writeWith (style : Style) (digits : Magnitude → Digits) : Binary64 → List Char
  | nan => ['n', 'a', 'n']
  | infinite false => ['i', 'n', 'f']
  | infinite true => ['-', 'i', 'n', 'f']
  | finite false m => (digits m).write style
  | finite true m => '-' :: (digits m).write style

/-- The characters of the exact text. -/
def chars (x : Binary64) : List Char := x.writeWith .exact Magnitude.shortest

/-- The exact text: the fewest digits that read back. -/
def text (x : Binary64) : String := String.ofList x.chars

/-- The brief text: the number rounded to six digits. -/
def brief (x : Binary64) : String :=
  String.ofList (x.writeWith .brief fun m => m.roundedTo 6)

end Binary64

end Heptad
