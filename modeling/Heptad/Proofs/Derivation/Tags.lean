import Heptad.Derivation.Canonical
import Heptad.Proofs.Derivation.Alike
import Heptad.Proofs.Outcome

/-!
# Tags

What a literal value or a step becomes under the tags, as a tree of its own kind:
a tag says nothing but which of the kinds it is. So a tagged tree tells its kind
and its parts.

* `Shape.json_injective`, `StepShape.json_injective`: different kinds or parts have
  different trees;
* `tagValue_eq_ok_iff`, `exists_stepTags`: what is tagged is of some kind.
-/

namespace Heptad

namespace Derivation

/-! ## Parts one by one -/

/-- A member that an entry becomes. -/
def EntryTags (e : Value × Value) (m : String × Json) : Prop :=
  e.1 = .str m.1 ∧ tagValue e.2 = .ok m.2

/-- Several things are tagged if each of them is. -/
theorem eq_ok_iff_forall₂ {ε α β : Type} (tag : α → Except ε β)
    (tags : List α → Except ε (List β)) (hnil : tags [] = .ok [])
    (hcons : ∀ a as, tags (a :: as) = tag a >>= fun b => tags as >>= fun bs => .ok (b :: bs))
    {as : List α} {bs : List β} :
    tags as = .ok bs ↔ List.Forall₂ (fun a b => tag a = .ok b) as bs := by
  induction as generalizing bs with
  | nil =>
    rw [hnil, List.forall₂_nil_left_iff, Except.ok.injEq, eq_comm]
  | cons a as ih =>
    rw [hcons, bind_eq_ok, List.forall₂_cons_left_iff]
    constructor
    · rintro ⟨b, hb, h⟩
      obtain ⟨rest, hrest, h⟩ := bind_eq_ok.1 h
      exact ⟨b, rest, hb, ih.1 hrest, (Except.ok.inj h).symm⟩
    · rintro ⟨b, rest, hb, hrest, rfl⟩
      exact ⟨b, hb, bind_eq_ok.2 ⟨rest, ih.2 hrest, rfl⟩⟩

theorem tagValues_eq_ok_iff {vs : List Value} {js : List Json} :
    tagValues vs = .ok js ↔ List.Forall₂ (fun v j => tagValue v = .ok j) vs js :=
  eq_ok_iff_forall₂ tagValue tagValues rfl fun _ _ => rfl

theorem tagSteps_eq_ok_iff {vs : List Value} {js : List Json} :
    tagSteps vs = .ok js ↔ List.Forall₂ (fun v j => tagStep v = .ok j) vs js :=
  eq_ok_iff_forall₂ tagStep tagSteps rfl fun _ _ => rfl

/-- Entries are tagged if all keys are texts and all values can be tagged. -/
theorem tagEntries_eq_ok_iff {es : List (Value × Value)} {ms : List (String × Json)} :
    tagEntries es = .ok ms ↔ List.Forall₂ EntryTags es ms := by
  induction es generalizing ms with
  | nil => exact ⟨fun h => Except.ok.inj h ▸ .nil, fun h => by cases h; rfl⟩
  | cons e es ih =>
    obtain ⟨k, v⟩ := e
    rw [tagEntries.eq_def]
    dsimp only
    constructor
    · intro h
      split at h
      · obtain ⟨name, hname, h⟩ := bind_eq_ok.1 h
        obtain rfl := Except.ok.inj hname
        obtain ⟨j, hj, h⟩ := bind_eq_ok.1 h
        obtain ⟨rest, hrest, h⟩ := bind_eq_ok.1 h
        obtain rfl := Except.ok.inj h
        exact .cons ⟨rfl, hj⟩ (ih.1 hrest)
      · exact nomatch h
    · intro h
      obtain _ | ⟨⟨hk, hj⟩, hrest⟩ := h
      obtain rfl : k = _ := hk
      exact bind_eq_ok.2 ⟨_, rfl, bind_eq_ok.2 ⟨_, hj, bind_eq_ok.2 ⟨_, ih.2 hrest, rfl⟩⟩⟩

/-- No key strays among entries that have tags. -/
theorem strayKey?_of_forall₂ {es : List (Value × Value)} {ms : List (String × Json)}
    (h : List.Forall₂ EntryTags es ms) : strayKey? es = none := by
  induction h with
  | nil => rfl
  | @cons e m es ms he _ ih =>
    obtain ⟨k, v⟩ := e
    obtain rfl : k = _ := he.1
    rw [strayKey?, ih]

/-! ## Kinds of values -/

/-- A literal value whose parts have been tagged. -/
inductive Shape where
  | null
  | bool (b : Bool)
  | int (i : Int)
  | float (x : Binary64)
  | str (s : String)
  | morphism (m : Morphism)
  | tuple (items : List Json)
  | list (items : List Json)
  | dict (members : List (String × Json))

namespace Shape

/-- The tagged form. -/
def json : Shape → Json
  | null => .null
  | bool b => .bool b
  | int i => .int i
  | float x => .float x
  | str s => .str s
  | morphism m => tagged "morphism" (.int m.ordinal)
  | tuple items => tagged "tuple" (.arr items)
  | list items => tagged "list" (.arr items)
  | dict members => tagged "dict" (.obj members)

/-- The kind of a tagged form. -/
def ofJson? : Json → Option Shape
  | .null => some null
  | .bool b => some (bool b)
  | .int i => some (int i)
  | .float x => some (float x)
  | .str s => some (str s)
  | .obj [(_, .int ordinal)] => (Morphism.ofInt? ordinal).map morphism
  | .obj [(tag, .arr items)] => some (if tag = "tuple" then tuple items else list items)
  | .obj [(_, .obj members)] => some (dict members)
  | _ => none

theorem ofJson?_json (s : Shape) : ofJson? s.json = some s := by
  cases s with
  | morphism m => cases m <;> rfl
  | _ => rfl

/-- Different kinds or parts have different forms. -/
theorem json_injective {s t : Shape} (h : s.json = t.json) : s = t := by
  have hs := s.ofJson?_json
  rw [h, t.ofJson?_json] at hs
  exact (Option.some.inj hs).symm

end Shape

/-- Which kind a literal value is of, and what its parts become. -/
inductive Tags : Value → Shape → Prop
  | null : Tags .null .null
  | bool (b : Bool) : Tags (.bool b) (.bool b)
  | int (i : Int) : Tags (.int i) (.int i)
  | float (x : Binary64) : Tags (.float x) (.float x)
  | str (s : String) : Tags (.str s) (.str s)
  | morphism (m : Morphism) : Tags (.morphism m) (.morphism m)
  | tuple {items : List Value} {js : List Json} :
      List.Forall₂ (fun v j => tagValue v = .ok j) items js → Tags (.tuple items) (.tuple js)
  | list {items : List Value} {js : List Json} :
      List.Forall₂ (fun v j => tagValue v = .ok j) items js → Tags (.list items) (.list js)
  | mapping {entries : List (Value × Value)} {ms members : List (String × Json)} :
      List.Forall₂ EntryTags entries ms → byName ms = members →
      Tags (.mapping entries) (.dict members)

/-- What is tagged has a kind. -/
theorem exists_tags {v : Value} {j : Json} (h : tagValue v = .ok j) :
    ∃ s, Tags v s ∧ s.json = j := by
  cases v with
  | null | bool | int | float | str | morphism =>
    obtain rfl := Except.ok.inj h
    exact ⟨_, by constructor, rfl⟩
  | tuple items =>
    obtain ⟨js, hjs, h⟩ := bind_eq_ok.1 h
    obtain rfl := Except.ok.inj h
    exact ⟨_, .tuple (tagValues_eq_ok_iff.1 hjs), rfl⟩
  | list items =>
    obtain ⟨js, hjs, h⟩ := bind_eq_ok.1 h
    obtain rfl := Except.ok.inj h
    exact ⟨_, .list (tagValues_eq_ok_iff.1 hjs), rfl⟩
  | mapping entries =>
    rw [tagValue] at h
    split at h
    · exact nomatch h
    · obtain ⟨ms, hms, h⟩ := bind_eq_ok.1 h
      obtain rfl := Except.ok.inj h
      exact ⟨_, .mapping (tagEntries_eq_ok_iff.1 hms) rfl, rfl⟩
  | bytes | literal | sub | noRule | reentrant => exact nomatch h

/-- What has a kind is tagged. -/
theorem tagValue_of_tags {v : Value} {s : Shape} (h : Tags v s) : tagValue v = .ok s.json := by
  cases h with
  | null | bool | int | float | str | morphism => rfl
  | tuple hjs => exact bind_eq_ok.2 ⟨_, tagValues_eq_ok_iff.2 hjs, rfl⟩
  | list hjs => exact bind_eq_ok.2 ⟨_, tagValues_eq_ok_iff.2 hjs, rfl⟩
  | mapping hms hb =>
    rw [tagValue, strayKey?_of_forall₂ hms, ← hb]
    exact bind_eq_ok.2 ⟨_, tagEntries_eq_ok_iff.2 hms, rfl⟩

theorem tagValue_eq_ok_iff {v : Value} {s : Shape} : tagValue v = .ok s.json ↔ Tags v s := by
  refine ⟨fun h => ?_, tagValue_of_tags⟩
  obtain ⟨t, ht, hj⟩ := exists_tags h
  exact Shape.json_injective hj ▸ ht

/-! ## Kinds of steps -/

/-- A step whose parts have been tagged. -/
inductive StepShape where
  | morphism (m : Morphism)
  | literal (value : Json)
  | sub (steps : List Json)

namespace StepShape

/-- The tagged form. -/
def json : StepShape → Json
  | morphism m => tagged "m" (.int m.ordinal)
  | literal value => tagged "lit" value
  | sub steps => tagged "sub" (.arr steps)

/-- The kind of a tagged form. -/
def ofJson? : Json → Option StepShape
  | .obj [(tag, value)] =>
    if tag = "lit" then some (literal value)
    else match value with
      | .int ordinal => (Morphism.ofInt? ordinal).map morphism
      | .arr steps => some (sub steps)
      | _ => none
  | _ => none

theorem ofJson?_json (s : StepShape) : ofJson? s.json = some s := by
  cases s with
  | morphism m => cases m <;> rfl
  | _ => rfl

/-- Different kinds or parts have different forms. -/
theorem json_injective {s t : StepShape} (h : s.json = t.json) : s = t := by
  have hs := s.ofJson?_json
  rw [h, t.ofJson?_json] at hs
  exact (Option.some.inj hs).symm

end StepShape

/-- Which kind a step is of, and what its parts become. -/
inductive StepTags : Value → StepShape → Prop
  | morphism {v : Value} {m : Morphism} : named v = .morphism m → StepTags v (.morphism m)
  | literal {v : Value} {j : Json} : tagValue v = .ok j → StepTags (.literal v) (.literal j)
  | sub {steps : List Value} {js : List Json} :
      List.Forall₂ (fun v j => tagStep v = .ok j) steps js → StepTags (.sub steps) (.sub js)

/-- A step that is tagged has a kind. -/
theorem exists_stepTags {v : Value} {j : Json} (h : tagStep v = .ok j) :
    ∃ s, StepTags v s ∧ s.json = j := by
  cases v with
  | morphism m =>
    obtain rfl := Except.ok.inj h
    exact ⟨_, .morphism rfl, rfl⟩
  | int i =>
    rw [tagStep] at h
    split at h
    · rename_i m hm
      obtain rfl := Except.ok.inj h
      have hnamed : named (.int i) = .morphism m := by rw [named, hm]
      exact ⟨_, .morphism hnamed, rfl⟩
    · exact nomatch h
  | literal v =>
    obtain ⟨k, hk, rfl⟩ := map_eq_ok.1 (mapError_eq_ok.1 h)
    exact ⟨_, .literal hk, rfl⟩
  | sub steps =>
    obtain ⟨js, hjs, h⟩ := bind_eq_ok.1 h
    obtain rfl := Except.ok.inj h
    exact ⟨_, .sub (tagSteps_eq_ok_iff.1 hjs), rfl⟩
  | null | bool | float | str | bytes | list | tuple | mapping | noRule | reentrant =>
    exact nomatch h

/-- A step that is tagged like another one is of its kind. -/
theorem stepTags_of_tagStep {v : Value} {s : StepShape} (h : tagStep v = .ok s.json) :
    StepTags v s := by
  obtain ⟨t, ht, hj⟩ := exists_stepTags h
  exact StepShape.json_injective hj ▸ ht

end Derivation

end Heptad
