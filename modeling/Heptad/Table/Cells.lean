import Heptad.Table.Basic

/-!
# Tables from and to nested cells

A table can be given by its cells as sequences nested as deep as it has sides,
each of one part for each morphism. The shape is checked before the cells.
-/

namespace Heptad

namespace Table

-- Powers of naturals are those of the core library, whatever else is imported.
attribute [local instance (high)] instPowNat

/-! ## To cells -/

/-- A list cut into parts of a given length, at most `count` of them. -/
def chunks {α : Type} (size : Nat) : Nat → List α → List (List α)
  | 0, _ => []
  | count + 1, xs => xs.take size :: chunks size count (xs.drop size)

/-- Cells as tuples nested as deep as there are sides. -/
def nest : Nat → List Value → Value
  | 0, cells => cells.headD .noRule
  | sides + 1, cells =>
    .tuple ((chunks (Morphism.count ^ sides) Morphism.count cells).map (nest sides))

/-- A table as nested tuples of its cells. -/
def toValue {ι : Type} [Address ι] (t : Table ι) : Value :=
  nest (Address.sides ι) (t.cells.map cellValue)

/-! ## From cells -/

/-- Whether a test holds of all items; the first of which it does not decides. -/
def allOk {α ε : Type} (test : α → Except ε Bool) : List α → Except ε Bool
  | [] => .ok true
  | x :: xs =>
    match test x with
    | .ok true => allOk test xs
    | other => other

/-- Whether a value has one part for each morphism, and so have its parts, as
    deep as there are sides. -/
def hasShape : Nat → Value → Except Fault Bool
  | 0, _ => .ok true
  | sides + 1, v => do
    if (← v.length?) ≠ Morphism.count then return false
    else if sides = 0 then return true
    else allOk (hasShape sides) (← v.items?)

/-- The content of a cell given as a value. -/
def cellOf : Value → Except Fault (Option Morphism)
  | .morphism m => .ok (some m)
  | .noRule => .ok none
  | v => .error (v.shownIn .tableCell)

/-- The contents read off several values, one after the other. -/
def collect {α β ε : Type} (read : α → Except ε (List β)) : List α → Except ε (List β)
  | [] => .ok []
  | x :: xs => do
    let ys ← read x
    return ys ++ (← collect read xs)

/-- The contents of nested cells in order. -/
def readCells : Nat → Value → Except Fault (List (Option Morphism))
  | 0, v => (cellOf v).map ([·])
  | sides + 1, v => do collect (readCells sides) (← v.items?)

/-- The place of an address among all. -/
def rank {ι : Type} [Address ι] (i : ι) : Nat :=
  (Address.toList i).foldl (fun n m => n * Morphism.count + m.ordinal) 0

/-- The table with these contents, in the order of the addresses. -/
def ofCells {ι : Type} [Address ι] (cells : List (Option Morphism)) : Table ι :=
  ⟨fun i => cells[rank i]?.join⟩

/-- How the shape of a table is written. -/
def shape (sides : Nat) : String :=
  String.intercalate "x" (List.replicate sides (toString Morphism.count))

/-- The table given by nested cells. -/
def ofValue {ι : Type} [Address ι] (v : Value) : Except Fault (Table ι) := do
  let sides := Address.sides ι
  if ← hasShape sides v then return ofCells (← readCells sides v)
  else .error (.tableShape (Address.tableName ι) (shape sides))

end Table

end Heptad
