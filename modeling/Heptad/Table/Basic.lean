import Heptad.Basis

/-!
# Interaction tables

An interaction table says what morphisms in sequence reduce to: one of two
sides takes a state and the morphism that follows, one of three sides the two
latest morphisms and the incoming one. Tables are partial; a cell without a
rule is empty, which is not the same as any morphism.

A cell is addressed by one morphism for each side (`Address`). Whatever can be
seen of a table is a view of its cells in the order of their addresses:
`Table.cells`, `Table.defined`, `Table.summary`.
-/

namespace Heptad

/-- What addresses a cell: a morphism for each side of a table. -/
class Address (ι : Type) where
  /-- The name of tables with such addresses. -/
  tableName : String
  /-- The names of the sides, as an address is written. -/
  places : String
  /-- The number of sides. -/
  sides : Nat
  /-- The morphisms of an address. -/
  toList : ι → List Morphism
  /-- The address made of these morphisms, if they are one for each side. -/
  ofList? : List Morphism → Option ι
  /-- All addresses in lexicographic order. -/
  all : List ι

/-- An address in a table of two sides: a state and the morphism that follows. -/
abbrev Pair2 := Morphism × Morphism

/-- An address in a table of three sides: the two latest morphisms and the
    incoming one. -/
abbrev Triple := Morphism × Morphism × Morphism

instance : Address Pair2 where
  tableName := "Tensor2D"
  places := "row, col"
  sides := 2
  toList := fun (i, j) => [i, j]
  ofList?
    | [i, j] => some (i, j)
    | _ => none
  all := Morphism.all.flatMap fun i => Morphism.all.map fun j => (i, j)

instance : Address Triple where
  tableName := "Tensor3D"
  places := "first, second, incoming"
  sides := 3
  toList := fun (i, j, k) => [i, j, k]
  ofList?
    | [i, j, k] => some (i, j, k)
    | _ => none
  all := Morphism.all.flatMap fun i => Morphism.all.flatMap fun j =>
    Morphism.all.map fun k => (i, j, k)

/-- A partial table of morphisms. -/
structure Table (ι : Type) where
  /-- What a cell holds, if it has a rule. -/
  cell : ι → Option Morphism

/-- A table of two sides. -/
abbrev Table2 := Table Pair2

/-- A table of three sides. -/
abbrev Table3 := Table Triple

namespace Table

variable {ι : Type}

/-- The table without any rule. -/
def empty : Table ι := ⟨fun _ => none⟩

/-- The table with one cell written. -/
def set [DecidableEq ι] (t : Table ι) (i : ι) (m : Morphism) : Table ι :=
  ⟨fun j => if j = i then some m else t.cell j⟩

@[simp] theorem cell_empty (i : ι) : (empty : Table ι).cell i = none := rfl

@[simp] theorem cell_set_self [DecidableEq ι] (t : Table ι) (i : ι) (m : Morphism) :
    (t.set i m).cell i = some m := by
  simp [set]

theorem cell_set_of_ne [DecidableEq ι] (t : Table ι) {i j : ι} (m : Morphism) (h : j ≠ i) :
    (t.set i m).cell j = t.cell j := by
  simp [set, h]

/-- A cell as a value. -/
def cellValue : Option Morphism → Value
  | none => .noRule
  | some m => .morphism m

variable [Address ι]

/-- The cells in the order of their addresses. -/
def cells (t : Table ι) : List (Option Morphism) := (Address.all : List ι).map t.cell

/-- The addresses of cells with a rule, in order, each with what the cell holds. -/
def defined (t : Table ι) : List (ι × Morphism) :=
  (Address.all : List ι).filterMap fun i => (t.cell i).map (i, ·)

/-- Whether two tables hold the same in every cell. -/
def same (t u : Table ι) : Bool := t.cells = u.cells

/-- A table shown by the number of its defined cells. -/
def summary (t : Table ι) : String :=
  s!"{Address.tableName ι}(defined={t.defined.length})"

/-! ## Values as addresses -/

/-- The morphisms a list of values addresses, the first wrong one deciding. -/
def addresses : List Value → Except EvalError (List Morphism)
  | [] => .ok []
  | v :: vs => do
    let m ← v.toMorphism?
    return m :: (← addresses vs)

/-- The cell that values address, one for each side. -/
def lookup (t : Table ι) (args : List Value) : Except Failure Value := do
  let ms ← (addresses args).mapError EvalError.raised
  match (Address.ofList? ms : Option ι) with
  | some i => .ok (cellValue (t.cell i))
  | none => .error (.fault (.tableKey (Address.tableName ι) (Address.places ι)))

/-- The cell that a key addresses, which has to be a tuple of one value for
    each side. -/
def get (t : Table ι) (key : Value) : Except Failure Value :=
  match key with
  | .tuple args =>
    if args.length = Address.sides ι then t.lookup args
    else .error (.fault (.tableKey (Address.tableName ι) (Address.places ι)))
  | _ => .error (.fault (.tableKey (Address.tableName ι) (Address.places ι)))

end Table

end Heptad
