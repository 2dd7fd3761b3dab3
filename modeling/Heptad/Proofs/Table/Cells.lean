import Heptad.Proofs.Outcome
import Heptad.Table.Cells

/-!
# Tables read back from their cells

The cells of a table, nested as deep as it has sides, are cells that a table can be
given by, and it is the same table.

* `Reads`: a nested value has the shape of a table, and these are its cells;
* `reads_nest`: cells that are nested are read back, side by side;
* `LawfulAddress`: an address is in the place among all that its rank tells;
* `ofValue_toValue`: so a table that is given by its own cells is the same one.
-/

namespace Heptad

namespace Table

-- Powers of naturals are those of the core library, whatever else is imported.
attribute [local instance (high)] instPowNat

/-! ## Parts -/

theorem length_chunks {α : Type} (size count : Nat) (xs : List α) :
    (chunks size count xs).length = count := by
  induction count generalizing xs with
  | zero => rfl
  | succ count ih => exact congrArg (· + 1) (ih _)

theorem map_chunks {α β : Type} (f : α → β) (size count : Nat) (xs : List α) :
    chunks size count (xs.map f) = (chunks size count xs).map (List.map f) := by
  induction count generalizing xs with
  | zero => rfl
  | succ count ih => rw [chunks, chunks, ← List.map_take, ← List.map_drop, ih, List.map_cons]

/-- Parts that take up all of a list are the whole of it. -/
theorem flatten_chunks {α : Type} {size count : Nat} {xs : List α}
    (h : xs.length = size * count) : (chunks size count xs).flatten = xs := by
  induction count generalizing xs with
  | zero => exact (List.length_eq_zero_iff.1 h).symm
  | succ count ih =>
    rw [chunks, List.flatten_cons, ih, List.take_append_drop]
    rw [List.length_drop, h, Nat.mul_succ, Nat.add_sub_cancel]

/-- The parts of a list are of one length. -/
theorem length_of_mem_chunks {α : Type} {size count : Nat} {xs part : List α}
    (h : xs.length = size * count) (hp : part ∈ chunks size count xs) : part.length = size := by
  induction count generalizing xs with
  | zero => cases hp
  | succ count ih =>
    rw [Nat.mul_succ] at h
    rcases List.mem_cons.1 hp with rfl | hp
    · rw [List.length_take, h]
      omega
    · refine ih ?_ hp
      rw [List.length_drop, h, Nat.add_sub_cancel]

/-- A test that tells a property of each item tells whether all have it. -/
theorem allOk_eq_all {α ε : Type} {test : α → Except ε Bool} {holds : α → Bool} {xs : List α}
    (h : ∀ x ∈ xs, test x = .ok (holds x)) : allOk test xs = .ok (xs.all holds) := by
  induction xs with
  | nil => rfl
  | cons x xs ih =>
    obtain ⟨hx, hxs⟩ := List.forall_mem_cons.1 h
    rw [allOk, hx, List.all_cons]
    cases holds x with
    | true => exact ih hxs
    | false => rfl

/-- What is read off several parts is what is read off each one. -/
theorem collect_map {α β γ ε : Type} {read : β → Except ε (List γ)} {write : α → β}
    {f : α → List γ} {xs : List α} (h : ∀ x ∈ xs, read (write x) = .ok (f x)) :
    collect read (xs.map write) = .ok (xs.map f).flatten := by
  induction xs with
  | nil => rfl
  | cons x xs ih =>
    rw [List.map_cons, collect, h x List.mem_cons_self,
      ih fun y hy => h y (List.mem_cons_of_mem x hy)]
    rfl

/-! ## Nested cells -/

/-- A value has the shape of a table with so many sides, and these are its cells. -/
structure Reads (sides : Nat) (v : Value) (cells : List (Option Morphism)) : Prop where
  shape : hasShape sides v = .ok true
  cells : readCells sides v = .ok cells

/-- A whole has the shape if it has one part for each morphism and all of them have it. -/
theorem hasShape_of_items {sides : Nat} {v : Value} {items : List Value} {holds : Value → Bool}
    (hl : v.length? = .ok items.length) (hv : v.items? = .ok items)
    (h : ∀ x ∈ items, hasShape sides x = .ok (holds x)) :
    hasShape (sides + 1) v = .ok (items.length = Morphism.count && items.all holds) := by
  rw [hasShape, hl, hv]
  show (if items.length ≠ Morphism.count then Except.ok false
    else if sides = 0 then .ok true else allOk (hasShape sides) items) = _
  by_cases hcount : items.length = Morphism.count
  · rw [if_neg (not_not_intro hcount), decide_eq_true hcount, Bool.true_and, allOk_eq_all h]
    cases sides with
    | zero =>
      have hall : items.all holds = true :=
        List.all_eq_true.2 fun x hx => (Except.ok.inj (h x hx)).symm
      rw [if_pos rfl, hall]
    | succ sides => rfl
  · rw [if_pos hcount, decide_eq_false hcount, Bool.false_and]

theorem cellOf_cellValue (c : Option Morphism) : cellOf (cellValue c) = .ok c := by
  cases c <;> rfl

/-- Cells that are nested are read back. -/
theorem reads_nest {sides : Nat} {cells : List (Option Morphism)}
    (h : cells.length = Morphism.count ^ sides) :
    Reads sides (nest sides (cells.map cellValue)) cells := by
  induction sides generalizing cells with
  | zero =>
    obtain ⟨c, rfl⟩ := List.length_eq_one_iff.1 h
    refine ⟨rfl, ?_⟩
    show (cellOf (cellValue c)).map _ = _
    rw [cellOf_cellValue]
    rfl
  | succ sides ih =>
    have h : cells.length = Morphism.count ^ sides * Morphism.count := h.trans (Nat.pow_succ ..)
    have hparts (part : List (Option Morphism))
        (hp : part ∈ chunks (Morphism.count ^ sides) Morphism.count cells) :
        Reads sides (nest sides (part.map cellValue)) part :=
      ih (length_of_mem_chunks h hp)
    rw [nest, map_chunks, List.map_map]
    constructor
    · have hshape : ∀ v ∈ (chunks (Morphism.count ^ sides) Morphism.count cells).map
          (nest sides ∘ List.map cellValue), hasShape sides v = .ok true := by
        rintro v hv
        obtain ⟨part, hp, rfl⟩ := List.mem_map.1 hv
        exact (hparts part hp).shape
      rw [hasShape_of_items rfl rfl hshape, List.length_map, length_chunks, decide_eq_true rfl,
        List.all_eq_true.2 fun _ _ => rfl, Bool.true_and]
    · have hread := collect_map (f := id) fun part hp => (hparts part hp).cells
      rw [List.map_id, flatten_chunks h] at hread
      exact hread

/-! ## Addresses -/

/-- Addresses are in their places. -/
class LawfulAddress (ι : Type) [Address ι] : Prop where
  length_all : (Address.all : List ι).length = Morphism.count ^ Address.sides ι
  /-- The place of an address among all is the one its rank tells. -/
  getElem?_rank : ∀ i : ι, (Address.all : List ι)[rank i]? = some i

/-- Of parts of one length that are put one behind the other, what is in a place. -/
theorem getElem?_flatMap {α β : Type} {f : α → List β} {n : Nat} {xs : List α}
    (hf : ∀ x ∈ xs, (f x).length = n) {x : α} {k j : Nat} (hx : xs[k]? = some x) (hj : j < n) :
    (xs.flatMap f)[k * n + j]? = (f x)[j]? := by
  induction xs generalizing k with
  | nil => cases hx
  | cons y ys ih =>
    obtain ⟨hy, hys⟩ := List.forall_mem_cons.1 hf
    rw [List.flatMap_cons]
    cases k with
    | zero =>
      obtain rfl : y = x := Option.some.inj hx
      rw [Nat.zero_mul, Nat.zero_add, List.getElem?_append_left (hy ▸ hj)]
    | succ k =>
      have hle : (f y).length ≤ (k + 1) * n + j := by
        rw [hy, Nat.succ_mul]
        omega
      rw [List.getElem?_append_right hle, hy, Nat.succ_mul, Nat.add_right_comm, Nat.add_sub_cancel]
      exact ih hys hx

instance : LawfulAddress Pair2 where
  length_all := rfl
  getElem?_rank := by
    rintro ⟨i, j⟩
    have hrank : rank ((i, j) : Pair2) = i.ordinal * Morphism.count + j.ordinal := by
      simp [rank, Address.toList]
    have hlength (i : Morphism) (_ : i ∈ Morphism.all) :
        (Morphism.all.map fun j => (i, j)).length = Morphism.count := rfl
    rw [hrank]
    refine (getElem?_flatMap hlength i.ofOrdinal?_ordinal j.ordinal_lt).trans ?_
    rw [List.getElem?_map]
    exact congrArg (Option.map _) j.ofOrdinal?_ordinal

instance : LawfulAddress Triple where
  length_all := by decide +kernel
  getElem?_rank := by
    rintro ⟨i, j, k⟩
    have hrank : rank ((i, j, k) : Triple) =
        i.ordinal * (Morphism.count * Morphism.count) + rank ((j, k) : Pair2) := by
      simp [rank, Address.toList, Nat.add_mul, Nat.mul_assoc, Nat.add_assoc]
    -- For each first morphism the addresses are those of the pairs that follow it.
    have hlength (i : Morphism) (_ : i ∈ Morphism.all) :
        ((Address.all : List Pair2).map fun p => (i, p)).length =
          Morphism.count * Morphism.count := rfl
    have hpair := LawfulAddress.getElem?_rank ((j, k) : Pair2)
    have hlt := (List.getElem?_eq_some_iff.1 hpair).1
    rw [hrank]
    refine (getElem?_flatMap hlength i.ofOrdinal?_ordinal hlt).trans ?_
    rw [List.getElem?_map, hpair]
    rfl

/-! ## Tables -/

theorem ext_cell_iff {ι : Type} {t u : Table ι} : t = u ↔ ∀ i, t.cell i = u.cell i :=
  ⟨fun h i => congrArg (fun t => t.cell i) h, fun h => congrArg Table.mk (funext h)⟩

variable {ι : Type} [Address ι] [LawfulAddress ι]

theorem length_cells (t : Table ι) : t.cells.length = Morphism.count ^ Address.sides ι := by
  rw [cells, List.length_map, LawfulAddress.length_all]

/-- A table is made of its cells. -/
theorem ofCells_cells (t : Table ι) : ofCells t.cells = t := by
  refine ext_cell_iff.2 fun i => ?_
  show t.cells[rank i]?.join = t.cell i
  rw [cells, List.getElem?_map, LawfulAddress.getElem?_rank]
  rfl

/-- The nested cells of a table can be given, and give the same table. -/
theorem ofValue_toValue (t : Table ι) : ofValue t.toValue = .ok t := by
  have hreads := reads_nest t.length_cells
  rw [ofValue, toValue, hreads.shape, hreads.cells]
  exact congrArg Except.ok t.ofCells_cells

end Table

end Heptad
