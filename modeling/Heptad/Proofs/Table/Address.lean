import Mathlib.Data.List.Forall2
import Heptad.Proofs.Basis
import Heptad.Proofs.Table.Cells

/-!
# Addresses in order

An address is made of one morphism for each side of a table, and the addresses are listed
in the lexicographic order of the ordinals. A cell is looked up by values that name the
morphisms of its address.

* `OrderedAddress`: what is known of addresses;
* `pairwise_begun`: words that all begin anew with each morphism in turn are in order;
* `lookup_of_names`: what is looked up;
* `mem_defined_iff`, `pairwise_defined`: the cells with a rule, in the order of their
  addresses.
-/

namespace Heptad

namespace Table

/-- The ordinals of the morphisms of an address. -/
def ordinals {ι : Type} [Address ι] (i : ι) : List Nat := (Address.toList i).map Morphism.ordinal

/-- Addresses are told by their morphisms, and listed in the order of these. -/
class OrderedAddress (ι : Type) [Address ι] : Prop extends LawfulAddress ι where
  length_toList : ∀ i : ι, (Address.toList i).length = Address.sides ι
  ofList?_toList : ∀ i : ι, Address.ofList? (Address.toList i) = some i
  pairwise_all : (Address.all : List ι).Pairwise fun i j => ordinals i < ordinals j

/-- Words that all begin anew with each morphism in turn are in order if they were before. -/
theorem pairwise_begun {α β : Type} {key : α → List Nat} {key' : β → List Nat}
    {f : Morphism → α → β} (hkey : ∀ m x, key' (f m x) = m.ordinal :: key x) {xs : List α}
    (h : xs.Pairwise fun x y => key x < key y) :
    (Morphism.all.flatMap fun m => xs.map (f m)).Pairwise fun x y => key' x < key' y := by
  refine List.pairwise_flatMap.2 ⟨fun m _ => ?_, ?_⟩
  · refine List.pairwise_map.2 (h.imp fun hlt => ?_)
    rw [hkey, hkey]
    exact List.cons_lt_cons_self.2 hlt
  · have hall : Morphism.all.Pairwise fun m n => m.ordinal < n.ordinal := by decide
    refine hall.imp fun hlt x hx y hy => ?_
    obtain ⟨x, -, rfl⟩ := List.mem_map.1 hx
    obtain ⟨y, -, rfl⟩ := List.mem_map.1 hy
    rw [hkey, hkey]
    exact List.Lex.rel hlt

instance : OrderedAddress Pair2 where
  length_toList _ := rfl
  ofList?_toList _ := rfl
  pairwise_all := by
    have hall : Morphism.all.Pairwise fun m n => [m.ordinal] < [n.ordinal] := by decide
    exact pairwise_begun (fun _ _ => rfl) hall

instance : OrderedAddress Triple where
  length_toList _ := rfl
  ofList?_toList _ := rfl
  pairwise_all := by
    -- For each first morphism the addresses are those of the pairs that follow it.
    have hall : (Address.all : List Triple) =
        Morphism.all.flatMap fun i => (Address.all : List Pair2).map fun p => (i, p) := rfl
    rw [hall]
    exact pairwise_begun (fun _ _ => rfl) OrderedAddress.pairwise_all

/-! ## Looking up -/

theorem addresses_of_names {args : List Value} {ms : List Morphism}
    (h : List.Forall₂ Names args ms) : addresses args = .ok ms := by
  induction h with
  | nil => rfl
  | cons hv _ ih =>
    rw [addresses, Value.toMorphism?_eq_ok_iff.2 hv]
    show (addresses _ >>= _) = _
    rw [ih]
    rfl

/-- Morphisms name themselves. -/
theorem names_self (ms : List Morphism) : List.Forall₂ Names (ms.map .morphism) ms :=
  List.forall₂_map_left_iff.2 (List.forall₂_same.2 fun m _ => .morphism m)

theorem cellValue_injective {c d : Option Morphism} (h : cellValue c = cellValue d) : c = d := by
  cases c <;> cases d <;> cases h <;> rfl

variable {ι : Type} [Address ι] [OrderedAddress ι] {i : ι} {m : Morphism}

/-- Values that name the morphisms of an address look up its cell. -/
theorem lookup_of_names {args : List Value} (h : List.Forall₂ Names args (Address.toList i))
    (t : Table ι) : t.lookup args = .ok (cellValue (t.cell i)) := by
  rw [lookup, addresses_of_names h]
  simp only [Except.mapError, bind, Except.bind, OrderedAddress.ofList?_toList]

/-! ## Cells with a rule -/

/-- No address is missing. -/
theorem mem_all (i : ι) : i ∈ (Address.all : List ι) :=
  List.mem_of_getElem? (LawfulAddress.getElem?_rank i)

theorem mem_defined_iff {t : Table ι} : (i, m) ∈ t.defined ↔ t.cell i = some m := by
  rw [defined, List.mem_filterMap]
  constructor
  · rintro ⟨j, -, hj⟩
    obtain ⟨k, hk, heq⟩ := Option.map_eq_some_iff.1 hj
    cases heq
    exact hk
  · intro h
    exact ⟨i, mem_all i, Option.map_eq_some_iff.2 ⟨m, h, rfl⟩⟩

theorem pairwise_defined (t : Table ι) :
    t.defined.Pairwise fun d e => ordinals d.1 < ordinals e.1 := by
  refine List.Pairwise.filterMap _ ?_ OrderedAddress.pairwise_all
  intro i j hlt d hd e he
  obtain ⟨_, -, rfl⟩ := Option.map_eq_some_iff.1 hd
  obtain ⟨_, -, rfl⟩ := Option.map_eq_some_iff.1 he
  exact hlt

end Table

end Heptad
