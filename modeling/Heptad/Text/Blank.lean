import Heptad.Fault
import Heptad.Text.Quoted

/-!
# Blanks and digits of all scripts

Numerals are read in any script: every white-space character outside ASCII
counts as a blank there, and every decimal digit as the ASCII digit of its
value. `Numeral.fold` does both; ASCII itself stays as it is.
-/

namespace Heptad

/-- The white-space characters outside ASCII. -/
def isWideBlank (c : Char) : Bool :=
  c = '\u0085' || c = '\u00a0' || c = '\u1680' || ('\u2000' ≤ c && c ≤ '\u200a') ||
    c = '\u2028' || c = '\u2029' || c = '\u202f' || c = '\u205f' || c = '\u3000'

/-- The blanks of ASCII that may surround a numeral. -/
def isBlank (c : Char) : Bool :=
  c = ' ' || ('\t' ≤ c && c ≤ '\r')

/-- The code points of the zeros of all scripts but ASCII, rising; the nine
    other digits of a script follow its zero. -/
def scriptZeros : List Nat :=
  [0x660, 0x6f0, 0x7c0, 0x966, 0x9e6, 0xa66, 0xae6, 0xb66, 0xbe6, 0xc66, 0xce6, 0xd66, 0xde6,
   0xe50, 0xed0, 0xf20, 0x1040, 0x1090, 0x17e0, 0x1810, 0x1946, 0x19d0, 0x1a80, 0x1a90, 0x1b50,
   0x1bb0, 0x1c40, 0x1c50, 0xa620, 0xa8d0, 0xa900, 0xa9d0, 0xa9f0, 0xaa50, 0xabf0, 0xff10,
   0x104a0, 0x10d30, 0x11066, 0x110f0, 0x11136, 0x111d0, 0x112f0, 0x11450, 0x114d0, 0x11650,
   0x116c0, 0x11730, 0x118e0, 0x11950, 0x11c50, 0x11d50, 0x11da0, 0x16a60, 0x16ac0, 0x16b50,
   0x1d7ce, 0x1d7d8, 0x1d7e2, 0x1d7ec, 0x1d7f6, 0x1e140, 0x1e2f0, 0x1e950, 0x1fbf0]

/-- The value of a decimal digit outside ASCII. -/
def wideDigit? (c : Char) : Option Nat :=
  (scriptZeros.find? fun z => z ≤ c.toNat && c.toNat < z + 10).map (c.toNat - ·)

namespace Numeral

/-- The ASCII character that stands for a blank or a digit of any script. -/
def fold (c : Char) : Char :=
  if c.toNat < 0x80 then c
  else if isWideBlank c then ' '
  else match wideDigit? c with
    | some d => Nat.digitChar d
    | none => c

/-- A text without the blanks around it. -/
def trim (cs : List Char) : List Char :=
  ((cs.dropWhile isBlank).reverse.dropWhile isBlank).reverse

/-- A numeral without its underscores, if each stands between two digits. -/
def join? (cs : List Char) : Option (List Char) :=
  go none cs
where
  /-- The characters after one that was a digit or was not. -/
  go : Option Char → List Char → Option (List Char)
    | _, [] => some []
    | before, '_' :: rest =>
      if before.any Char.isDigit && rest.head?.any Char.isDigit then go (some '_') rest else none
    | _, c :: rest => (go (some c) rest).map (c :: ·)

/-- The sign of a numeral, whether it is negative, and what follows. -/
def sign : List Char → Bool × List Char
  | '-' :: rest => (true, rest)
  | '+' :: rest => (false, rest)
  | cs => (false, cs)

/-- The number written by a run of digits, if there is at least one and nothing else. -/
def ofDigits? (cs : List Char) : Option Nat :=
  if cs ≠ [] ∧ cs.all Char.isDigit then some (Nat.ofDigitChars 10 cs 0) else none

/-- The integer a text names: an optional sign and digits, single underscores
    between them, blanks around. -/
def int? (s : String) : Option Int := do
  let cs ← join? (trim (s.toList.map fold))
  let (negative, digits) := sign cs
  let n ← ofDigits? digits
  return if negative then -(n : Int) else n

/-- How many digits a text begins with, behind blanks and a sign. -/
def digitCount (s : String) : Nat :=
  let (_, cs) := sign (trim (s.toList.map fold))
  let digits := join? (cs.takeWhile fun c => c.isDigit || c = '_')
  (digits.getD []).length

/-- The integer read off a text, which must not begin with too many digits. -/
def read (s : String) : Except Fault Int :=
  if maxDigits < digitCount s then .error (.numeralTooLong (digitCount s))
  else
    match int? s with
    | some i => .ok i
    | none => .error (.badInt (quoted s))

end Numeral

end Heptad
