import Heptad.Binary64.Layout
import Heptad.Fault
import Heptad.Number
import Heptad.Text.Quoted

/-!
# The interchange format

A tree of the interchange format JSON and its one text: no blanks, members in
the order they are given, and every character outside printable ASCII escaped
by its UTF-16 code units. Integers and floating-point numbers are told apart by
their texts, as the text of a floating-point number always has a point or an
exponent.
-/

namespace Heptad

/-- A tree of the interchange format. -/
inductive Json where
  | null
  | bool (b : Bool)
  | int (i : Int)
  | float (x : Binary64)
  | str (s : String)
  | arr (items : List Json)
  | obj (members : List (String × Json))

namespace Json

/-- An escaped code unit. -/
def unit (n : Nat) : List Char := '\x5c' :: 'u' :: hex 4 n

/-- A character in a text of the format. -/
def escape (c : Char) : List Char :=
  if c = '\x22' ∨ c = '\x5c' then ['\x5c', c]
  else if c = '\n' then ['\x5c', 'n']
  else if c = '\r' then ['\x5c', 'r']
  else if c = '\t' then ['\x5c', 't']
  else if c = '\x08' then ['\x5c', 'b']
  else if c = '\x0c' then ['\x5c', 'f']
  else if ' ' ≤ c ∧ c ≤ '~' then [c]
  else if c.toNat < 0x10000 then unit c.toNat
  else
    let beyond := c.toNat - 0x10000
    unit (0xd800 + beyond / 0x400) ++ unit (0xdc00 + beyond % 0x400)

/-- A text between double quotes. -/
def string (s : String) : List Char := '\x22' :: s.toList.flatMap escape ++ ['\x22']

/-- Parts between commas. -/
def commas : List (List Char) → List Char
  | [] => []
  | [p] => p
  | p :: ps => p ++ ',' :: commas ps

mutual

/-- The characters of a tree. -/
def chars : Json → List Char
  | null => ['n', 'u', 'l', 'l']
  | bool true => ['t', 'r', 'u', 'e']
  | bool false => ['f', 'a', 'l', 's', 'e']
  | int i => (toString i).toList
  | float x => x.chars
  | str s => string s
  | arr items => '[' :: commas (itemChars items) ++ [']']
  | obj members => '\x7b' :: commas (memberChars members) ++ ['\x7d']

/-- The characters of each item of an array. -/
def itemChars : List Json → List (List Char)
  | [] => []
  | j :: js => j.chars :: itemChars js

/-- The characters of each member of an object. -/
def memberChars : List (String × Json) → List (List Char)
  | [] => []
  | (name, j) :: ms => (string name ++ ':' :: j.chars) :: memberChars ms

end

/-- The text of a tree. -/
def text (j : Json) : String := String.ofList j.chars

mutual

/-- The numbers of a tree, in the order of its text. -/
def numbers : Json → List Number
  | int i => [.int i]
  | float x => [.float x]
  | arr items => itemNumbers items
  | obj members => memberNumbers members
  | _ => []

/-- The numbers of several trees. -/
def itemNumbers : List Json → List Number
  | [] => []
  | j :: js => j.numbers ++ itemNumbers js

/-- The numbers of several members. -/
def memberNumbers : List (String × Json) → List Number
  | [] => []
  | (_, j) :: ms => j.numbers ++ memberNumbers ms

end

/-- Why a number cannot be written: it is not finite, or an integer with too many
    digits. -/
def numberFault? : Number → Option Fault
  | .int i => if hasDecimal i then none else some .tooManyDigits
  | .float x => if x.isFinite then none else some .notFinite

/-- Why a tree cannot be written, which the first of its numbers decides that cannot. -/
def fault? (j : Json) : Option Fault := j.numbers.findSome? numberFault?

end Json

end Heptad
