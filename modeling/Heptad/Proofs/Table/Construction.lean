import Heptad.Proofs.Table.Address

/-!
# Tables given by nested lists

Of nested lists first the shape decides, then the first cell that is neither a morphism
nor empty; without either they give a table, which holds in each cell what the lists hold
in its place.

* `IsNested`, `isCube`, `leaves`, `at?`: nested lists, their shape, what they hold in order
  and in a place;
* `hasShape_of_nested`, `readCells_of_nested`: how they are read;
* `getElem?_leaves`: an address has the same place in the order as list by list;
* `ofValue_cases`: hence the three ways in which a table is given.
-/

namespace Heptad

namespace Table

-- Powers of naturals are those of the core library, whatever else is imported.
attribute [local instance (high)] instPowNat

/-! ## Nested lists -/

/-- Lists nested to a depth, with anything within. -/
def IsNested : Nat → Value → Prop
  | 0, _ => True
  | depth + 1, .list items => ∀ x ∈ items, IsNested depth x
  | _ + 1, _ => False

/-- Whether nested lists have one part for each morphism at every depth. -/
def isCube : Nat → Value → Bool
  | 0, _ => true
  | depth + 1, .list items => items.length = Morphism.count && items.all (isCube depth)
  | _ + 1, _ => false

/-- What nested lists hold, in order. -/
def leaves : Nat → Value → List Value
  | 0, v => [v]
  | depth + 1, .list items => items.flatMap (leaves depth)
  | _ + 1, _ => []

/-- What nested lists hold in a place that is told list by list. -/
def at? : List Nat → Value → Option Value
  | [], v => some v
  | k :: path, .list items => items[k]?.bind (at? path)
  | _ :: _, _ => none

variable {depth : Nat} {v : Value}

theorem exists_items (h : IsNested (depth + 1) v) :
    ∃ items, v = .list items ∧ ∀ x ∈ items, IsNested depth x := by
  cases v with
  | list items => exact ⟨items, rfl, h⟩
  | null | bool | int | float | str | bytes | tuple | mapping | morphism | literal | sub
  | noRule | reentrant => cases h

/-! ## Shape -/

/-- The shape of nested lists is found without a fault. -/
theorem hasShape_of_nested (h : IsNested depth v) : hasShape depth v = .ok (isCube depth v) := by
  induction depth generalizing v with
  | zero => rfl
  | succ depth ih =>
    obtain ⟨items, rfl, hitems⟩ := exists_items h
    exact hasShape_of_items rfl rfl fun x hx => ih (hitems x hx)

/-! ## Cells -/

/-- What a cell can hold. -/
def IsCell (v : Value) : Prop := v = .noRule ∨ ∃ m, v = .morphism m

theorem isCell_iff : IsCell v ↔ ∃ c, v = cellValue c := by
  constructor
  · rintro (rfl | ⟨m, rfl⟩)
    · exact ⟨none, rfl⟩
    · exact ⟨some m, rfl⟩
  · rintro ⟨_ | m, rfl⟩
    · exact .inl rfl
    · exact .inr ⟨m, rfl⟩

theorem cellOf_of_not_isCell (h : ¬ IsCell v) : cellOf v = .error (v.shownIn .tableCell) := by
  cases v with
  | noRule => exact absurd (.inl rfl) h
  | morphism m => exact absurd (.inr ⟨m, rfl⟩) h
  | null | bool | int | float | str | bytes | list | tuple | mapping | literal | sub
  | reentrant => rfl

/-- Of several values that are to be cells the first that is none decides. -/
theorem mapM_cellOf (cells : List Value) :
    (∃ contents, cells.mapM cellOf = .ok contents ∧ cells = contents.map cellValue) ∨
      ∃ c ∈ cells, ¬ IsCell c ∧ cells.mapM cellOf = .error (c.shownIn .tableCell) := by
  induction cells with
  | nil => exact .inl ⟨[], rfl, rfl⟩
  | cons v cells ih =>
    rw [List.mapM_cons]
    by_cases hv : IsCell v
    · obtain ⟨c, rfl⟩ := isCell_iff.1 hv
      rw [cellOf_cellValue]
      rcases ih with ⟨contents, hread, rfl⟩ | ⟨d, hd, hbad, hread⟩
      · refine .inl ⟨c :: contents, ?_, rfl⟩
        rw [hread]
        rfl
      · refine .inr ⟨d, List.mem_cons_of_mem _ hd, hbad, ?_⟩
        rw [hread]
        rfl
    · refine .inr ⟨v, List.mem_cons_self, hv, ?_⟩
      rw [cellOf_of_not_isCell hv]
      rfl

theorem collect_eq_mapM {α β γ ε : Type} {read : α → Except ε (List γ)} {f : α → List β}
    {g : β → Except ε γ} {xs : List α} (h : ∀ x ∈ xs, read x = (f x).mapM g) :
    collect read xs = (xs.flatMap f).mapM g := by
  induction xs with
  | nil => rfl
  | cons x xs ih =>
    obtain ⟨hx, hxs⟩ := List.forall_mem_cons.1 h
    rw [collect, hx, ih hxs, List.flatMap_cons, List.mapM_append]

/-- Nested lists are read in order. -/
theorem readCells_of_nested (h : IsNested depth v) :
    readCells depth v = (leaves depth v).mapM cellOf := by
  induction depth generalizing v with
  | zero =>
    rw [readCells, leaves, List.mapM_cons, List.mapM_nil]
    cases cellOf v <;> rfl
  | succ depth ih =>
    obtain ⟨items, rfl, hitems⟩ := exists_items h
    exact collect_eq_mapM fun x hx => ih (hitems x hx)

/-! ## Places -/

/-- The place of a word of morphisms among all of its length. -/
def place : List Morphism → Nat
  | [] => 0
  | m :: ms => m.ordinal * Morphism.count ^ ms.length + place ms

theorem foldl_eq_place (n : Nat) (ms : List Morphism) :
    ms.foldl (fun n m => n * Morphism.count + m.ordinal) n =
      n * Morphism.count ^ ms.length + place ms := by
  induction ms generalizing n with
  | nil => exact (Nat.mul_one n).symm
  | cons m ms ih =>
    rw [List.foldl_cons, ih, place, List.length_cons, Nat.pow_succ, Nat.add_mul, Nat.mul_assoc,
      Nat.mul_comm Morphism.count, Nat.add_assoc]

theorem place_lt (ms : List Morphism) : place ms < Morphism.count ^ ms.length := by
  induction ms with
  | nil => exact Nat.zero_lt_one
  | cons m ms ih =>
    calc m.ordinal * Morphism.count ^ ms.length + place ms
      _ < m.ordinal * Morphism.count ^ ms.length + Morphism.count ^ ms.length :=
        Nat.add_lt_add_left ih _
      _ = (m.ordinal + 1) * Morphism.count ^ ms.length := (Nat.succ_mul _ _).symm
      _ ≤ Morphism.count * Morphism.count ^ ms.length := Nat.mul_le_mul_right _ m.ordinal_lt
      _ = Morphism.count ^ (ms.length + 1) := Nat.pow_succ'.symm

theorem exists_items_of_isCube (h : isCube (depth + 1) v = true) :
    ∃ items, v = .list items ∧ items.length = Morphism.count ∧
      ∀ x ∈ items, isCube depth x = true := by
  cases v with
  | list items =>
    rw [isCube, Bool.and_eq_true, decide_eq_true_iff, List.all_eq_true] at h
    exact ⟨items, rfl, h⟩
  | null | bool | int | float | str | bytes | tuple | mapping | morphism | literal | sub
  | noRule | reentrant => cases h

theorem length_leaves (h : isCube depth v = true) :
    (leaves depth v).length = Morphism.count ^ depth := by
  induction depth generalizing v with
  | zero => rfl
  | succ depth ih =>
    obtain ⟨items, rfl, hl, hitems⟩ := exists_items_of_isCube h
    have hlengths : items.map (fun x => (leaves depth x).length) =
        items.map fun _ => Morphism.count ^ depth :=
      List.map_congr_left fun x hx => ih (hitems x hx)
    rw [leaves, List.length_flatMap, hlengths, List.map_const', List.sum_replicate_nat, hl,
      Nat.pow_succ']

/-- What nested lists hold in order stands in the same places as list by list. -/
theorem getElem?_leaves {ms : List Morphism} (h : isCube ms.length v = true) :
    (leaves ms.length v)[place ms]? = at? (ms.map Morphism.ordinal) v := by
  induction ms generalizing v with
  | nil => rfl
  | cons m ms ih =>
    obtain ⟨items, rfl, hl, hitems⟩ := exists_items_of_isCube h
    have hlt : m.ordinal < items.length := hl ▸ m.ordinal_lt
    have hitem : items[m.ordinal]? = some items[m.ordinal] := List.getElem?_eq_getElem hlt
    have hlengths (x : Value) (hx : x ∈ items) :
        (leaves ms.length x).length = Morphism.count ^ ms.length := length_leaves (hitems x hx)
    rw [List.map_cons, at?, hitem, Option.bind_some, ← ih (hitems _ (List.getElem_mem hlt))]
    exact getElem?_flatMap hlengths hitem (place_lt ms)

/-! ## Tables -/

variable {ι : Type} [Address ι]

theorem rank_eq_place (i : ι) : rank i = place (Address.toList i) := by
  rw [rank, foldl_eq_place, Nat.zero_mul, Nat.zero_add]

variable [OrderedAddress ι]

theorem rank_lt (i : ι) : rank i < Morphism.count ^ Address.sides ι := by
  rw [rank_eq_place, ← OrderedAddress.length_toList i]
  exact place_lt _

theorem getElem?_leaves_rank (h : isCube (Address.sides ι) v = true) (i : ι) :
    (leaves (Address.sides ι) v)[rank i]? = at? (ordinals i) v := by
  rw [rank_eq_place]
  rw [← OrderedAddress.length_toList i] at h ⊢
  exact getElem?_leaves h

/-- The table made of the cells that nested lists hold has them in their places. -/
theorem at?_eq_cell {contents : List (Option Morphism)} (h : isCube (Address.sides ι) v = true)
    (hcontents : leaves (Address.sides ι) v = contents.map cellValue) (i : ι) :
    at? (ordinals i) v = some (cellValue ((ofCells contents : Table ι).cell i)) := by
  have hlt : rank i < contents.length := by
    rw [← List.length_map cellValue, ← hcontents, length_leaves h]
    exact rank_lt i
  rw [← getElem?_leaves_rank h, hcontents, List.getElem?_map]
  show contents[rank i]?.map cellValue = some (cellValue contents[rank i]?.join)
  rw [List.getElem?_eq_getElem hlt]
  rfl

/-- Lists nested as deep as a table has sides give it in one of three ways. -/
theorem ofValue_cases (h : IsNested (Address.sides ι) v) :
    (isCube (Address.sides ι) v = false ∧ (ofValue v : Except Fault (Table ι)) =
      .error (.tableShape (Address.tableName ι) (shape (Address.sides ι)))) ∨
    (isCube (Address.sides ι) v = true ∧ ∃ c ∈ leaves (Address.sides ι) v, ¬ IsCell c ∧
      (ofValue v : Except Fault (Table ι)) = .error (c.shownIn .tableCell)) ∨
    (isCube (Address.sides ι) v = true ∧ (∀ c ∈ leaves (Address.sides ι) v, IsCell c) ∧
      ∃ t : Table ι, ofValue v = .ok t ∧
        ∀ i, at? (ordinals i) v = some (cellValue (t.cell i))) := by
  rw [ofValue, hasShape_of_nested h]
  cases hcube : isCube (Address.sides ι) v with
  | false => exact .inl ⟨rfl, rfl⟩
  | true =>
    refine .inr ?_
    show (_ ∧ ∃ c ∈ _, _ ∧ (readCells (Address.sides ι) v >>= _) = _) ∨
      _ ∧ _ ∧ ∃ t, (readCells (Address.sides ι) v >>= _) = _ ∧ _
    rw [readCells_of_nested h]
    rcases mapM_cellOf (leaves (Address.sides ι) v) with
      ⟨contents, hread, hcontents⟩ | ⟨c, hc, hbad, hread⟩
    · refine .inr ⟨rfl, ?_, ofCells contents, by rw [hread]; rfl, at?_eq_cell hcube hcontents⟩
      intro c hc
      rw [hcontents] at hc
      obtain ⟨d, -, rfl⟩ := List.mem_map.1 hc
      exact isCell_iff.2 ⟨d, rfl⟩
    · exact .inl ⟨rfl, c, hc, hbad, by rw [hread]; rfl⟩

end Table

end Heptad
