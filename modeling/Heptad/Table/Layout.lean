import Heptad.Table.Basic
import Heptad.Value.Arithmetic

/-!
# Printed tables

A table of two sides is printed as a matrix, one of three sides as a matrix for
each first morphism. Every cell is its glyph, or a dot without a rule, padded
with blanks to the width asked for; a width too small for the glyph adds none.
Widths far beyond any line cannot be counted or held (`Layout.fault?`).
-/

namespace Heptad

namespace Layout

/-- A character padded to a width. -/
def pad (width : Int) (c : Char) : List Char := c :: List.replicate (width.toNat - 1) ' '

/-- The character of a cell. -/
def cellChar : Option Morphism → Char
  | none => '.'
  | some m => m.glyph

/-- The glyphs of all morphisms as the head of a matrix. -/
def header (width : Int) : List Char :=
  List.replicate 6 ' ' ++ Morphism.all.flatMap fun m => pad width m.glyph

/-- The line below the head of a matrix. -/
def rule (width : Int) : List Char :=
  List.replicate 4 ' ' ++ List.replicate (Morphism.count * width).toNat '—'

/-- One row of a matrix: the glyph of its morphism and its cells. -/
def row (width : Int) (m : Morphism) (cells : Morphism → Option Morphism) : List Char :=
  ' ' :: ' ' :: m.glyph :: ' ' :: '|' :: ' ' ::
    Morphism.all.flatMap fun k => pad width (cellChar (cells k))

/-- The rows of a matrix. -/
def rows (width : Int) (cells : Morphism → Morphism → Option Morphism) : List (List Char) :=
  Morphism.all.map fun m => row width m (cells m)

/-- What is wrong with a width: neither it nor the length of the line below the head may be
    beyond what can be counted, and there has to be room for the line. How long a line
    there is room for depends on the machine. -/
def fault? (room : Nat) (width : Int) : Option Fault :=
  if !Value.isCount width then some .widthTooLarge
  else if room < Morphism.count * width then some .outOfMemory
  else if !Value.isCount (Morphism.count * width) then some .countTooLarge
  else none

/-- The width of a cell unless told otherwise. -/
def defaultWidth : Int := 5

/-- Lines joined by line ends. -/
def unlines (lines : List (List Char)) : String :=
  String.intercalate "\n" (lines.map String.ofList)

end Layout

open Layout

/-- The lines of a printed table of two sides. -/
def Table.lines2 (t : Table2) (width : Int) : List (List Char) :=
  ["--- Interaction Tensor T (Transition Matrix) ---".toList, header width, rule width] ++
    rows width (fun i j => t.cell (i, j)) ++ [List.replicate (header width).length '-']

/-- The lines of one plane of a table of three sides. -/
def Table.plane (t : Table3) (width : Int) (i : Morphism) : List (List Char) :=
  [[], "Plane ".toList ++ i.glyph :: " (first morphism):".toList, header width, rule width] ++
    rows width fun j k => t.cell (i, j, k)

/-- The lines of a printed table of three sides. -/
def Table.lines3 (t : Table3) (width : Int) : List (List Char) :=
  "--- 3D Interaction Tensor T_3D ---".toList :: Morphism.all.flatMap (t.plane width)

/-- A table of two sides laid out. -/
def Table.format2 (t : Table2) (width : Int) : String := unlines (t.lines2 width)

/-- A table of three sides laid out. -/
def Table.format3 (t : Table3) (width : Int) : String := unlines (t.lines3 width)

/-- A table in print at a width, given what it is laid out as, unless something is wrong
    with the width. -/
def Layout.printed (room : Nat) (format : Int → String) (width : Int) : Except Fault String :=
  match fault? room width with
  | some f => .error f
  | none => .ok (format width)

end Heptad
