import Mathlib.Data.List.Perm.Basic
import Mathlib.Data.String.Basic
import Heptad.Json.OfValue
import Heptad.Proofs.Json.Reader
import Heptad.Proofs.Sorting.Sort
import Heptad.Proofs.Value.Number

/-!
# Keys in the interchange format

The entries of a mapping are sorted by their keys before these become names. Only keys of
one kind can be compared, texts with texts and numbers with numbers, so that no mapping
with keys of different kinds is sorted; among the keys of one kind that have a name, those
that are not equal have different names and stand in an order.

* `kind_of_lt?`: only keys of one kind are compared;
* `keyText_ne`: keys of one kind that are not equal (`Apart`) have different names;
* `exists_of_objectMembers`: the members of an object are what the entries become one by one;
* `objectMembers_iff_of_perm`: they are the same in whatever order the entries are put in;
* `nodup_of_objectMembers`: and no two of them have one name.
-/

namespace Heptad

open Sorting

namespace Value

variable {v w : Value}

/-! ## Kinds -/

/-- The kinds of values that can be compared among themselves, and the others. -/
inductive Kind where
  | text
  | bytes
  | list
  | tuple
  | number
  | other

/-- The kind of a value. -/
def kind : Value → Kind
  | str _ => .text
  | bytes _ => .bytes
  | list _ => .list
  | tuple _ => .tuple
  | bool _ | int _ | float _ | morphism _ => .number
  | _ => .other

theorem kind_of_number? {n : Number} (h : v.number? = some n) : v.kind = .number := by
  cases v <;> first | rfl | cases h

/-- Only values of one kind are compared. -/
theorem kind_of_lt? {b : Bool} (h : v.lt? w = .ok b) : v.kind = w.kind := by
  rw [lt?, order.eq_def] at h
  split at h
  · rfl
  · rfl
  · rfl
  · rfl
  · split at h
    · rename_i hv hw
      rw [kind_of_number? hv, kind_of_number? hw]
    · cases h

/-! ## Names -/

/-- The tree a key stands for that is no text. -/
def keyTree : Value → Json
  | bool b => .bool b
  | int i => .int i
  | float x => .float x
  | morphism m => .int m.ordinal
  | _ => .null

/-- The text of a key in the interchange format. -/
def keyText : Value → String
  | str s => s
  | v => v.keyTree.text

/-- The keys that have a name. -/
def IsNamed (v : Value) : Prop := v.memberName = .ok v.keyText

theorem isNamed_int {i : Int} : (int i).IsNamed ↔ hasDecimal i := by
  rw [IsNamed, memberName]
  split
  · rename_i hi
    exact iff_of_true (congrArg Except.ok String.ofList_toList.symm) hi
  · rename_i hi
    exact iff_of_false nofun hi

theorem isNamed_morphism (m : Morphism) : (morphism m).IsNamed :=
  congrArg Except.ok String.ofList_toList.symm

theorem isNamed_float {x : Binary64} : (float x).IsNamed ↔ x.isFinite := by
  rw [IsNamed, memberName]
  split
  · rename_i hx
    exact iff_of_true rfl hx
  · rename_i hx
    exact iff_of_false nofun hx

/-- The name of a key, if it has one, is its text. -/
theorem isNamed_of_memberName {name : String} (h : v.memberName = .ok name) : v.IsNamed := by
  cases v with
  | str | null => rfl
  | bool b => cases b <;> rfl
  | int i =>
    rw [memberName] at h
    split at h
    · rename_i hi
      exact isNamed_int.2 hi
    · cases h
  | morphism m => exact isNamed_morphism m
  | float x =>
    rw [memberName] at h
    split at h
    · rename_i hx
      exact isNamed_float.2 hx
    · cases h
  | bytes | list | tuple | mapping | literal | sub | noRule | reentrant => cases h

/-- Only texts, numbers and the null have names. -/
theorem IsNamed.kind_or_null (h : v.IsNamed) : v.kind = .text ∨ v.kind = .number ∨ v = null := by
  cases v with
  | str => exact .inl rfl
  | bool | int | float | morphism => exact .inr (.inl rfl)
  | null => exact .inr (.inr rfl)
  | bytes | list | tuple | mapping | literal | sub | noRule | reentrant => cases h

theorem eq_null_of_kind (h : v.IsNamed) (hkind : v.kind = .other) : v = null := by
  rcases h.kind_or_null with hk | hk | hnull
  · rw [hk] at hkind
    cases hkind
  · rw [hk] at hkind
    cases hkind
  · exact hnull

/-! ## Keys of one kind -/

/-- Keys that are not equal, whichever comes first. -/
structure Apart (v w : Value) : Prop where
  left : v.eq w = false
  right : w.eq v = false

theorem Apart.symm (h : Apart v w) : Apart w v := ⟨h.right, h.left⟩

/-- Where a number lies on the scale of exact values, if it is finite. -/
def keyUnits (v : Value) : Int :=
  match v.number?.bind Number.extent? with
  | some (.units u) => u
  | _ => 0

/-- A number that has a name is finite. -/
theorem IsNamed.exists_number? (h : v.IsNamed) (hkind : v.kind = .number) :
    ∃ n, v.number? = some n ∧ n.extent? = some (.units v.keyUnits) := by
  cases v with
  | bool | int | morphism => exact ⟨_, rfl, rfl⟩
  | float x =>
    cases x with
    | finite => exact ⟨_, rfl, rfl⟩
    | nan => exact absurd (isNamed_float.1 h) nofun
    | infinite => exact absurd (isNamed_float.1 h) nofun
  | null | str | bytes | list | tuple | mapping | literal | sub | noRule | reentrant => cases hkind

/-- Numbers that have names are compared by where they lie. -/
theorem lt?_of_number (hv : v.IsNamed) (hw : w.IsNamed) (hkv : v.kind = .number)
    (hkw : w.kind = .number) : v.lt? w = .ok (decide (v.keyUnits < w.keyUnits)) := by
  obtain ⟨m, hm, hvu⟩ := hv.exists_number? hkv
  obtain ⟨n, hn, hwu⟩ := hw.exists_number? hkw
  rw [lt?_of_number? hm hn, Number.lt, hvu, hwu]
  rfl

/-- Numbers that lie at the same place are equal. -/
theorem keyUnits_ne (h : Apart v w) (hv : v.IsNamed) (hw : w.IsNamed) (hkv : v.kind = .number)
    (hkw : w.kind = .number) : v.keyUnits ≠ w.keyUnits := by
  obtain ⟨m, hm, hvu⟩ := hv.exists_number? hkv
  obtain ⟨n, hn, hwu⟩ := hw.exists_number? hkw
  intro heq
  have := h.left
  rw [eq_of_number? hm hn, Number.eq_eq_true_iff.2 ⟨_, hvu, heq ▸ hwu⟩] at this
  cases this

theorem lt?_of_text (hv : v.kind = .text) (hw : w.kind = .text) :
    v.lt? w = .ok (decide (v.keyText < w.keyText)) := by
  cases v <;> cases hv
  cases w <;> cases hw
  rfl

theorem IsNamed.isFinite_keyTree (h : v.IsNamed) : v.keyTree.isFinite := by
  cases v with
  | float x => exact (Json.isFinite_float x).trans (isNamed_float.1 h)
  | _ => rfl

/-- The number a tree stands for. -/
def treeNumber? : Json → Option Number
  | .bool b => some (.int (if b then 1 else 0))
  | .int i => some (.int i)
  | .float x => some (.float x)
  | _ => none

theorem number?_eq_treeNumber? (h : v.kind = .number) : v.number? = treeNumber? v.keyTree := by
  cases v <;> cases h <;> rfl

theorem keyText_of_number (h : v.kind = .number) : v.keyText = v.keyTree.text := by
  cases v <;> cases h <;> rfl

/-- A second null would be equal to the first. -/
theorem not_apart_of_null (hv : v = null) (hw : w.IsNamed) (hkind : v.kind = w.kind) :
    ¬ Apart v w := by
  subst hv
  rw [eq_null_of_kind hw hkind.symm]
  exact fun h => nomatch h.left

/-- Keys of one kind that are not equal have different names. -/
theorem keyText_ne (h : Apart v w) (hv : v.IsNamed) (hw : w.IsNamed) (hkind : v.kind = w.kind) :
    v.keyText ≠ w.keyText := by
  have heq := h.left
  rcases hv.kind_or_null with hk | hk | hnull
  · cases v <;> cases hk
    cases w <;> cases hkind
    rw [Value.eq] at heq
    exact of_decide_eq_false heq
  · rw [keyText_of_number hk, keyText_of_number (hkind ▸ hk)]
    intro htext
    have htree := Json.text_injective hv.isFinite_keyTree hw.isFinite_keyTree htext
    obtain ⟨n, hn, hunits⟩ := hv.exists_number? hk
    have hn' : w.number? = some n := by
      rw [number?_eq_treeNumber? (hkind ▸ hk), ← htree, ← number?_eq_treeNumber? hk, hn]
    rw [eq_of_number? hn hn', Number.eq_eq_true_iff.2 ⟨_, hunits, hunits⟩] at heq
    cases heq
  · exact absurd h (not_apart_of_null hnull hw hkind)

/-! ## Members -/

/-- An entry and the member it becomes. -/
structure IsMember (e : Value × Except Fault Json) (m : String × Json) : Prop where
  name : e.1.memberName = .ok m.1
  tree : e.2 = .ok m.2

namespace IsMember

variable {e : Value × Except Fault Json} {m : String × Json}

theorem named (h : IsMember e m) : e.1.IsNamed := isNamed_of_memberName h.name

theorem keyText_eq (h : IsMember e m) : e.1.keyText = m.1 :=
  Except.ok.inj (h.named.symm.trans h.name)

end IsMember

variable {es fs : List (Value × Except Fault Json)} {ms : List (String × Json)}

/-- Entries become members one by one. -/
theorem forall₂_of_members (h : members es = .ok ms) : List.Forall₂ IsMember es ms := by
  induction es generalizing ms with
  | nil =>
    cases h
    exact .nil
  | cons e es ih =>
    obtain ⟨name, hname, h⟩ := bind_eq_ok.1 h
    obtain ⟨j, hj, h⟩ := bind_eq_ok.1 h
    obtain ⟨rest, hrest, h⟩ := bind_eq_ok.1 h
    cases h
    exact .cons ⟨hname, hj⟩ (ih hrest)

/-- The comparison entries are sorted by. -/
def keyLt (e f : Value × Except Fault Json) : Except Fault Bool := e.1.lt? f.1

/-- The members of an object, from the entries of a mapping in any order. -/
def objectMembers (es : List (Value × Except Fault Json)) : Except Fault (List (String × Json)) :=
  sort? keyLt es >>= members

/-- Entries that can be compared, and whose keys have names and are not equal. -/
structure Comparable (es : List (Value × Except Fault Json)) : Prop where
  uniform : Uniform (fun e => e.1.kind) es
  named : ∀ e ∈ es, e.1.IsNamed
  apart : es.Pairwise fun e f => Apart e.1 f.1

namespace Comparable

/-- Whatever differs for keys that are not equal occurs once. -/
theorem nodup_map {κ : Type} {key : Value × Except Fault Json → κ} (h : Comparable es)
    (hkey : ∀ e ∈ es, ∀ f ∈ es, Apart e.1 f.1 → key e ≠ key f) : (es.map key).Nodup :=
  List.pairwise_map.2 (h.apart.imp_of_mem fun he hf => hkey _ he _ hf)

/-- The names of keys that can be compared occur once. -/
theorem nodup_names (h : Comparable es) : (es.map fun e => e.1.keyText).Nodup :=
  h.nodup_map fun e he f hf hef =>
    keyText_ne hef (h.named e he) (h.named f hf) (h.uniform e he f hf)

/-- Entries that can be compared are sorted into the same list in whatever order they are
    put in. -/
theorem sort?_eq (h : Comparable es) (hp : es.Perm fs) : sort? keyLt es = sort? keyLt fs := by
  cases es with
  | nil => rw [List.nil_perm.1 hp]
  | cons first rest =>
    have hkind : ∀ e ∈ first :: rest, e.1.kind = first.1.kind := fun e he =>
      h.uniform e he first List.mem_cons_self
    rcases (h.named first List.mem_cons_self).kind_or_null with hk | hk | hnull
    · rw [hk] at hkind
      have hlt : ComparesBy keyLt (fun e => e.1.keyText) (first :: rest) := fun e he f hf =>
        lt?_of_text (hkind e he) (hkind f hf)
      exact sort?_eq_of_perm hp hlt h.nodup_names
    · rw [hk] at hkind
      have hlt : ComparesBy keyLt (fun e => e.1.keyUnits) (first :: rest) := fun e he f hf =>
        lt?_of_number (h.named e he) (h.named f hf) (hkind e he) (hkind f hf)
      exact sort?_eq_of_perm hp hlt (h.nodup_map fun e he f hf hef =>
        keyUnits_ne hef (h.named e he) (h.named f hf) (hkind e he) (hkind f hf))
    · -- Next to a null there is no other key.
      cases rest with
      | nil => rw [List.singleton_perm.1 hp]
      | cons second rest =>
        have hsecond : second ∈ first :: second :: rest := List.mem_cons_of_mem _ List.mem_cons_self
        exact absurd ((List.pairwise_cons.1 h.apart).1 second List.mem_cons_self)
          (not_apart_of_null hnull (h.named second hsecond) (hkind second hsecond).symm)

end Comparable

/-! ## In any order -/

theorem respects_kind : Respects keyLt fun e => e.1.kind := fun _ _ _ h => kind_of_lt? h

/-- The members are those the entries become. -/
theorem exists_of_objectMembers (h : objectMembers es = .ok ms) :
    ∃ ns, List.Forall₂ IsMember es ns ∧ ns.Perm ms := by
  obtain ⟨sorted, hsort, hms⟩ := bind_eq_ok.1 h
  have hp := (uniform_of_sort? respects_kind hsort).2
  exact List.perm_comp_forall₂ hp.symm (forall₂_of_members hms)

/-- Entries that become members are those of one kind. -/
theorem comparable_of_objectMembers (h : objectMembers es = .ok ms)
    (hapart : es.Pairwise fun e f => Apart e.1 f.1) : Comparable es := by
  obtain ⟨sorted, hsort, -⟩ := bind_eq_ok.1 h
  obtain ⟨ns, hns, -⟩ := exists_of_objectMembers h
  have hnamed := (List.forall₂_and_left es ns).1 (hns.imp fun e m he => ⟨he.named, he⟩)
  exact ⟨(uniform_of_sort? respects_kind hsort).1, hnamed.1, hapart⟩

theorem objectMembers_of_perm (hapart : es.Pairwise fun e f => Apart e.1 f.1) (hp : es.Perm fs)
    (h : objectMembers es = .ok ms) : objectMembers fs = .ok ms := by
  rw [objectMembers, ← (comparable_of_objectMembers h hapart).sort?_eq hp]
  exact h

/-- In whatever order entries are put in, they become the same members or none. -/
theorem objectMembers_iff_of_perm (hapart : es.Pairwise fun e f => Apart e.1 f.1)
    (hp : es.Perm fs) : objectMembers es = .ok ms ↔ objectMembers fs = .ok ms :=
  ⟨objectMembers_of_perm hapart hp,
    objectMembers_of_perm ((hp.pairwise_iff Apart.symm).1 hapart) hp.symm⟩

/-- No two of the members have one name. -/
theorem nodup_of_objectMembers (h : objectMembers es = .ok ms)
    (hapart : es.Pairwise fun e f => Apart e.1 f.1) : (ms.map Prod.fst).Nodup := by
  obtain ⟨ns, hns, hp⟩ := exists_of_objectMembers h
  have hnames : es.map (fun e => e.1.keyText) = ns.map Prod.fst := by
    rw [← List.forall₂_eq_eq_eq, List.forall₂_map_left_iff, List.forall₂_map_right_iff]
    exact hns.imp fun e m he => he.keyText_eq
  rw [← (hp.map Prod.fst).nodup_iff, ← hnames]
  exact (comparable_of_objectMembers h hapart).nodup_names

end Value

end Heptad
