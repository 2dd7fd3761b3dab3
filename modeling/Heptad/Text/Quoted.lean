import Heptad.Text.Hex
import Heptad.Text.Printable

/-!
# Quoted text

A text is shown between quotes: double ones if it holds a single quote and no
double one, single ones otherwise. The quote in use and the backslash are
escaped, tab and line ends have short escapes, and every other character that
does not print is given by its code.
-/

namespace Heptad

namespace Quoted

/-- The quote a text of these characters is put in. -/
def quote (cs : List Char) : Char :=
  if '\x27' ∈ cs ∧ '\x22' ∉ cs then '\x22' else '\x27'

/-- The code of a character that does not print, in the shortest of three forms. -/
def code (c : Char) : List Char :=
  if c.toNat < 0x100 then '\x5c' :: 'x' :: hex 2 c.toNat
  else if c.toNat < 0x10000 then '\x5c' :: 'u' :: hex 4 c.toNat
  else '\x5c' :: 'U' :: hex 8 c.toNat

/-- A character inside quotes of the given kind. -/
def escape (quote c : Char) : List Char :=
  if c = quote ∨ c = '\x5c' then ['\x5c', c]
  else if c = '\n' then ['\x5c', 'n']
  else if c = '\r' then ['\x5c', 'r']
  else if c = '\t' then ['\x5c', 't']
  else if isPrintable c then [c]
  else code c

/-- Characters between quotes. -/
def chars (cs : List Char) : List Char :=
  let q := quote cs
  q :: cs.flatMap (escape q) ++ [q]

/-- A byte inside quotes of the given kind: only the characters of ASCII print. -/
def escapeByte (quote : Char) (b : UInt8) : List Char :=
  let c := Char.ofNat b.toNat
  if b < 0x80 then escape quote c else '\x5c' :: 'x' :: hex 2 b.toNat

end Quoted

/-- A text between quotes. -/
def quoted (s : String) : String := String.ofList (Quoted.chars s.toList)

/-- A byte string between quotes, marked by a `b`. -/
def quotedBytes (bytes : List UInt8) : String :=
  let q := Quoted.quote (bytes.map fun b => Char.ofNat b.toNat)
  String.ofList ('b' :: q :: bytes.flatMap (Quoted.escapeByte q) ++ [q])

end Heptad
