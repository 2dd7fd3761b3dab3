import Heptad.Proofs.Value.Keys

/-!
# Mappings put together in another order

The values the interchange format is for (`Ordinary`) are numbers, texts and morphisms,
and lists, tuples and mappings of these, where no two keys of a mapping are equal. Two of
them can differ only in the order in which mappings at any depth were put together
(`Shuffled`), which is more than `Derivation.Alike` allows: keys that are not a number, of
which there can be several, change places too.

* `sameJson_of_shuffled`: such values become the same tree, or neither becomes one.
-/

namespace Heptad

namespace Value

/-! ## The values -/

/-- The values the interchange format is for, with keys of any kind. -/
inductive Ordinary : Value → Prop
  | null : Ordinary null
  | bool (b : Bool) : Ordinary (bool b)
  | int (i : Int) : Ordinary (int i)
  | float (x : Binary64) : Ordinary (float x)
  | str (s : String) : Ordinary (str s)
  | morphism (m : Morphism) : Ordinary (morphism m)
  | list {items : List Value} : (∀ v ∈ items, Ordinary v) → Ordinary (list items)
  | tuple {items : List Value} : (∀ v ∈ items, Ordinary v) → Ordinary (tuple items)
  /-- A mapping has no key twice. -/
  | mapping {entries : List (Value × Value)} : (entries.Pairwise fun e f => Apart e.1 f.1) →
      (∀ e ∈ entries, Ordinary e.2) → Ordinary (mapping entries)

/-- The same value up to the order in which mappings were put together, at any depth. -/
inductive Shuffled : Value → Value → Prop
  | refl (v : Value) : Shuffled v v
  | list {vs ws : List Value} : List.Forall₂ Shuffled vs ws → Shuffled (list vs) (list ws)
  | tuple {vs ws : List Value} : List.Forall₂ Shuffled vs ws → Shuffled (tuple vs) (tuple ws)
  /-- The values of the keys are shuffled and then the entries. -/
  | mapping {es fs gs : List (Value × Value)} : es.map Prod.fst = fs.map Prod.fst →
      List.Forall₂ Shuffled (es.map Prod.snd) (fs.map Prod.snd) → fs.Perm gs →
      Shuffled (mapping es) (mapping gs)

/-! ## Lists related item by item -/

section

variable {α β : Type} {R S : α → β → Prop} {xs : List α} {ys : List β}

theorem forall₂_of_mem (hxs : ∀ x ∈ xs, ∀ {y}, R x y → S x y) (h : List.Forall₂ R xs ys) :
    List.Forall₂ S xs ys :=
  ((List.forall₂_and_left xs ys).2 ⟨hxs, h⟩).imp fun _ _ h => h.1 h.2

theorem forall_mem_of_forall₂ {p : β → Prop} (h : List.Forall₂ R xs ys)
    (hp : ∀ {x y}, R x y → p y) : ∀ y ∈ ys, p y := by
  induction h with
  | nil => exact nofun
  | cons hxy _ ih => exact List.forall_mem_cons.2 ⟨hp hxy, ih⟩

end

/-! ## Containers in the interchange format -/

theorem toJsonEntries_eq_map (es : List (Value × Value)) :
    toJsonEntries es = es.map fun e => (e.1, e.2.toJson) := by
  induction es with
  | nil => rfl
  | cons e es ih => rw [toJsonEntries, ih, List.map_cons]

/-- Items become trees one by one. -/
theorem toJsons_eq_ok_iff {vs : List Value} {js : List Json} :
    toJsons vs = .ok js ↔ List.Forall₂ (fun v j => v.toJson = .ok j) vs js := by
  induction vs generalizing js with
  | nil =>
    rw [List.forall₂_nil_left_iff]
    exact ⟨fun h => (Except.ok.inj h).symm, fun h => congrArg Except.ok h.symm⟩
  | cons v vs ih =>
    rw [toJsons, List.forall₂_cons_left_iff]
    constructor
    · intro h
      obtain ⟨j, hj, h⟩ := bind_eq_ok.1 h
      obtain ⟨js, hjs, h⟩ := bind_eq_ok.1 h
      exact ⟨j, js, hj, ih.1 hjs, (Except.ok.inj h).symm⟩
    · rintro ⟨j, js, hj, hjs, rfl⟩
      rw [hj, ih.2 hjs]
      rfl

theorem toJson_list (items : List Value) : (list items).toJson = (toJsons items).map .arr := by
  rw [toJson]
  cases toJsons items <;> rfl

theorem toJson_tuple (items : List Value) : (tuple items).toJson = (toJsons items).map .arr := by
  rw [toJson]
  cases toJsons items <;> rfl

theorem toJson_mapping (entries : List (Value × Value)) :
    (mapping entries).toJson = (objectMembers (toJsonEntries entries)).map .obj := by
  rw [toJson]
  change (sort? keyLt _ >>= fun sorted => members sorted >>= fun ms => pure (Json.obj ms)) =
    (sort? keyLt _ >>= members).map .obj
  cases sort? keyLt (toJsonEntries entries) with
  | error e => rfl
  | ok sorted =>
    change (members sorted >>= fun ms => pure (Json.obj ms)) = (members sorted).map .obj
    cases members sorted <;> rfl

/-! ## Shuffled values -/

/-- Values that become the same tree, or neither becomes one. -/
def SameJson (v w : Value) : Prop := ∀ j, v.toJson = .ok j ↔ w.toJson = .ok j

variable {vs ws : List Value} {es fs gs : List (Value × Value)}

theorem sameJson_of_map {α : Type} {x y : Except Fault α} {f : α → Json} {v w : Value}
    (hv : v.toJson = x.map f) (hw : w.toJson = y.map f) (h : ∀ a, x = .ok a ↔ y = .ok a) :
    SameJson v w := by
  intro j
  simp only [hv, hw, map_eq_ok, h]

theorem toJsons_iff_of_same (h : List.Forall₂ SameJson vs ws) (js : List Json) :
    toJsons vs = .ok js ↔ toJsons ws = .ok js := by
  rw [toJsons_eq_ok_iff, toJsons_eq_ok_iff]
  induction h generalizing js with
  | nil => rfl
  | cons hvw _ ih => simp only [List.forall₂_cons_left_iff, hvw _, ih]

/-- Entries with the same key that become the same member, or neither becomes one. -/
structure SameMember (e f : Value × Except Fault Json) : Prop where
  key : e.1 = f.1
  tree : ∀ j, e.2 = .ok j ↔ f.2 = .ok j

theorem SameMember.symm {e f : Value × Except Fault Json} (h : SameMember e f) : SameMember f e :=
  ⟨h.key.symm, fun j => (h.tree j).symm⟩

section

variable {es fs : List (Value × Except Fault Json)} {ms : List (String × Json)}

/-- Entries that become the same members are the same. -/
theorem eq_of_sameMember (h : List.Forall₂ SameMember es fs) (hms : List.Forall₂ IsMember es ms) :
    es = fs := by
  induction h generalizing ms with
  | nil => rfl
  | cons hef _ ih =>
    obtain _ | ⟨hm, hms⟩ := hms
    rw [ih hms, Prod.ext hef.key (hm.tree.trans ((hef.tree _).1 hm.tree).symm)]

theorem objectMembers_of_same (h : List.Forall₂ SameMember es fs)
    (hms : objectMembers es = .ok ms) : objectMembers fs = .ok ms := by
  obtain ⟨ns, hns, -⟩ := exists_of_objectMembers hms
  rw [← eq_of_sameMember h hns]
  exact hms

theorem objectMembers_iff_of_same (h : List.Forall₂ SameMember es fs) :
    objectMembers es = .ok ms ↔ objectMembers fs = .ok ms :=
  ⟨objectMembers_of_same h, objectMembers_of_same (h.imp fun _ _ => SameMember.symm).flip⟩

end

theorem sameMember_toJsonEntries (hkeys : es.map Prod.fst = fs.map Prod.fst)
    (h : List.Forall₂ SameJson (es.map Prod.snd) (fs.map Prod.snd)) :
    List.Forall₂ SameMember (toJsonEntries es) (toJsonEntries fs) := by
  rw [← List.forall₂_eq_eq_eq] at hkeys
  rw [toJsonEntries_eq_map, toJsonEntries_eq_map]
  rw [List.forall₂_map_left_iff, List.forall₂_map_right_iff] at hkeys h ⊢
  exact .mp (fun _ _ => SameMember.mk) hkeys h

/-- Keys that are not equal are so whatever becomes of the values. -/
theorem apart_toJsonEntries (h : es.Pairwise fun e f => Apart e.1 f.1) :
    (toJsonEntries es).Pairwise fun e f => Apart e.1 f.1 := by
  rw [toJsonEntries_eq_map, List.pairwise_map]
  exact h

theorem apart_of_keys_eq (h : es.Pairwise fun e f => Apart e.1 f.1)
    (hkeys : es.map Prod.fst = fs.map Prod.fst) : fs.Pairwise fun e f => Apart e.1 f.1 := by
  rw [← List.pairwise_map] at h ⊢
  rwa [← hkeys]

/-- Values that are shuffled become the same tree, or neither becomes one. -/
theorem sameJson_of_shuffled {v w : Value} (hv : v.Ordinary) (h : Shuffled v w) : SameJson v w := by
  induction hv generalizing w with
  | null | bool | int | float | str | morphism => cases h with | refl => exact fun _ => .rfl
  | list _ ih =>
    cases h with
    | refl => exact fun _ => .rfl
    | list hall =>
      have hsame := toJsons_iff_of_same (forall₂_of_mem ih hall)
      exact sameJson_of_map (toJson_list _) (toJson_list _) hsame
  | tuple _ ih =>
    cases h with
    | refl => exact fun _ => .rfl
    | tuple hall =>
      have hsame := toJsons_iff_of_same (forall₂_of_mem ih hall)
      exact sameJson_of_map (toJson_tuple _) (toJson_tuple _) hsame
  | mapping hapart _ ih =>
    cases h with
    | refl => exact fun _ => .rfl
    | mapping hkeys hall hp =>
      have hsame := forall₂_of_mem (S := SameJson) (List.forall_mem_map.2 ih) hall
      refine sameJson_of_map (toJson_mapping _) (toJson_mapping _) fun ms => ?_
      rw [objectMembers_iff_of_same (sameMember_toJsonEntries hkeys hsame)]
      refine objectMembers_iff_of_perm (apart_toJsonEntries (apart_of_keys_eq hapart hkeys)) ?_
      rw [toJsonEntries_eq_map, toJsonEntries_eq_map]
      exact hp.map _

end Value

end Heptad
