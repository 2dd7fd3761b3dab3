import Heptad.Proofs.Json.Tight
import Heptad.Proofs.Value.Shuffled

/-!
# Canonical texts

What the canonical text of a value tells is what the interchange format can tell (`plain`):
tuples are lists, morphisms their ordinals and keys their names. It is read as this, but for
the order of keys.

* `written_of_toJson`: the tree of a value has no name twice and stands for what is plain of
  it;
* `canonicalText_canonical`: the text of a value is the same in whatever order its mappings
  were put together, or there is none in any order; it is tight and tells what is plain.
-/

namespace Heptad

/-! ## Trees -/

namespace Json

/-- Trees without an object that has two members of one name. -/
inductive UniqueNames : Json → Prop
  | null : UniqueNames null
  | bool (b : Bool) : UniqueNames (bool b)
  | int (i : Int) : UniqueNames (int i)
  | float (x : Binary64) : UniqueNames (float x)
  | str (s : String) : UniqueNames (str s)
  | arr {items : List Json} : (∀ j ∈ items, UniqueNames j) → UniqueNames (arr items)
  | obj {members : List (String × Json)} : (members.map Prod.fst).Nodup →
      (∀ m ∈ members, UniqueNames m.2) → UniqueNames (obj members)

mutual

/-- The value a tree is read as. -/
def value : Json → Value
  | null => .null
  | bool b => .bool b
  | int i => .int i
  | float x => .float x
  | str s => .str s
  | arr items => .list (values items)
  | obj members => .mapping (entries members)

/-- The values several trees are read as. -/
def values : List Json → List Value
  | [] => []
  | j :: js => j.value :: values js

/-- The entries members are read as. -/
def entries : List (String × Json) → List (Value × Value)
  | [] => []
  | (name, j) :: ms => (.str name, j.value) :: entries ms

end

theorem values_eq_map (js : List Json) : values js = js.map value := by
  induction js with
  | nil => rfl
  | cons j js ih => rw [values, ih, List.map_cons]

theorem entries_eq_map (ms : List (String × Json)) :
    entries ms = ms.map fun m => (.str m.1, m.2.value) := by
  induction ms with
  | nil => rfl
  | cons m ms ih => rw [entries, ih, List.map_cons]

end Json

namespace Value

/-! ## Plain values -/

mutual

/-- A value with tuples as lists, morphisms as their ordinals and keys as their texts. -/
def plain : Value → Value
  | list items | tuple items => list (plains items)
  | morphism m => int m.ordinal
  | mapping entries => mapping (plainEntries entries)
  | v => v

/-- What is plain of several values. -/
def plains : List Value → List Value
  | [] => []
  | v :: vs => v.plain :: plains vs

/-- What is plain of the entries of a mapping. -/
def plainEntries : List (Value × Value) → List (Value × Value)
  | [] => []
  | (k, v) :: es => (str k.keyText, v.plain) :: plainEntries es

end

theorem plains_eq_map (vs : List Value) : plains vs = vs.map plain := by
  induction vs with
  | nil => rfl
  | cons v vs ih => rw [plains, ih, List.map_cons]

theorem plainEntries_eq_map (es : List (Value × Value)) :
    plainEntries es = es.map fun e => (str e.1.keyText, e.2.plain) := by
  induction es with
  | nil => rfl
  | cons e es ih => rw [plainEntries, ih, List.map_cons]

/-! ## Values and their trees -/

/-- A tree that stands for what is plain of a value. -/
structure Written (v : Value) (j : Json) : Prop where
  finite : j.isFinite
  unique : j.UniqueNames
  value : Shuffled v.plain j.value

/-- A member that stands for what is plain of an entry. -/
structure WrittenMember (e : Value × Value) (m : String × Json) : Prop where
  name : e.1.keyText = m.1
  tree : Written e.2 m.2

/-- An array stands for a list if its items do for those of the list. -/
theorem written_arr {vs : List Value} {js : List Json} (h : List.Forall₂ Written vs js) :
    Written (list vs) (.arr js) := by
  have hfinite : ∀ j ∈ js, j.isFinite := forall_mem_of_forall₂ h Written.finite
  refine ⟨Json.isFinite_arr.2 hfinite, .arr (forall_mem_of_forall₂ h Written.unique), .list ?_⟩
  · rw [plains_eq_map, Json.values_eq_map, List.forall₂_map_left_iff, List.forall₂_map_right_iff]
    exact h.imp fun _ _ => Written.value

/-- An object stands for a mapping if its members do for the entries, in any order. -/
theorem written_obj {es : List (Value × Value)} {ns ms : List (String × Json)}
    (h : List.Forall₂ WrittenMember es ns) (hp : ns.Perm ms) (hnodup : (ms.map Prod.fst).Nodup) :
    Written (mapping es) (.obj ms) := by
  have hfinite : ∀ m ∈ ns, m.2.isFinite := forall_mem_of_forall₂ h fun hm => hm.tree.finite
  have hunique : ∀ m ∈ ns, m.2.UniqueNames := forall_mem_of_forall₂ h fun hm => hm.tree.unique
  refine ⟨Json.isFinite_obj.2 fun m hm => hfinite m (hp.mem_iff.2 hm),
    .obj hnodup fun m hm => hunique m (hp.mem_iff.2 hm), ?_⟩
  · rw [plain, Json.value]
    refine @Shuffled.mapping _ (Json.entries ns) _ ?_ ?_ ?_
    · rw [plainEntries_eq_map, Json.entries_eq_map, List.map_map, List.map_map,
        ← List.forall₂_eq_eq_eq, List.forall₂_map_left_iff, List.forall₂_map_right_iff]
      exact h.imp fun e m hm => congrArg str hm.name
    · rw [plainEntries_eq_map, Json.entries_eq_map, List.map_map, List.map_map,
        List.forall₂_map_left_iff, List.forall₂_map_right_iff]
      exact h.imp fun e m hm => hm.tree.value
    · rw [Json.entries_eq_map, Json.entries_eq_map]
      exact hp.map _

/-- The tree of a value stands for what is plain of it. -/
theorem written_of_toJson {v : Value} (hv : v.Ordinary) {j : Json} (h : v.toJson = .ok j) :
    Written v j := by
  induction hv generalizing j with
  | null =>
    cases h
    exact ⟨rfl, .null, .refl _⟩
  | bool b =>
    cases h
    exact ⟨rfl, .bool b, .refl _⟩
  | int i =>
    rw [toJson] at h
    split at h
    · cases h
      exact ⟨rfl, .int i, .refl _⟩
    · cases h
  | str s =>
    cases h
    exact ⟨rfl, .str s, .refl _⟩
  | morphism m =>
    cases h
    exact ⟨rfl, .int _, .refl _⟩
  | float x =>
    rw [toJson] at h
    split at h
    · rename_i hx
      cases h
      exact ⟨(Json.isFinite_float x).trans hx, .float x, .refl _⟩
    · cases h
  | list _ ih =>
    rw [toJson_list] at h
    obtain ⟨js, hjs, rfl⟩ := map_eq_ok.1 h
    exact written_arr (forall₂_of_mem ih (toJsons_eq_ok_iff.1 hjs))
  | tuple _ ih =>
    rw [toJson_tuple] at h
    obtain ⟨js, hjs, rfl⟩ := map_eq_ok.1 h
    -- A tuple is written as the list of its items.
    have hlist := written_arr (forall₂_of_mem ih (toJsons_eq_ok_iff.1 hjs))
    exact ⟨hlist.finite, hlist.unique, hlist.value⟩
  | mapping hapart _ ih =>
    rw [toJson_mapping] at h
    obtain ⟨ms, hms, rfl⟩ := map_eq_ok.1 h
    obtain ⟨ns, hns, hp⟩ := exists_of_objectMembers hms
    rw [toJsonEntries_eq_map, List.forall₂_map_left_iff] at hns
    have hwritten := forall₂_of_mem (S := WrittenMember)
      (fun e he m hm => ⟨hm.keyText_eq, ih e he hm.tree⟩) hns
    exact written_obj hwritten hp (nodup_of_objectMembers hms (apart_toJsonEntries hapart))

/-! ## Canonical texts -/

/-- A text of ASCII without white space outside quotes that is read as what is plain of a
    value, with no name twice in an object. -/
structure Tells (s : String) (v : Value) : Prop where
  ascii : ∀ c ∈ s.toList, c.toNat < 128
  tight : ∀ c ∈ Json.unquoted false s.toList, isBlank c = false
  decodes : ∃ j, Json.Reader.tree? s = some j ∧ j.UniqueNames ∧ Shuffled v.plain j.value

theorem tells_of_written {v : Value} {j : Json} (h : Written v j) : Tells j.text v := by
  have htight := Json.tight_chars j h.finite
  have hchars : j.text.toList = j.chars := String.toList_ofList
  refine ⟨?_, ?_, j, Json.tree?_text h.finite, h.unique, h.value⟩
  · rw [hchars]
    exact htight.ascii
  · rw [hchars]
    exact htight.unquoted

/-- In whatever order the mappings of a value were put together, it has the same canonical
    text, which tells what is plain of it, or it has none. -/
theorem canonicalText_canonical {v : Value} (hv : v.Ordinary) :
    (∃ s, Tells s v ∧ ∀ w, Shuffled v w → w.canonicalText = .ok s) ∨
      ∀ w, Shuffled v w → ∃ f, w.canonicalText = .error f := by
  have hsame : ∀ w, Shuffled v w → SameJson v w := fun w h => sameJson_of_shuffled hv h
  cases hj : v.toJson with
  | ok j =>
    refine .inl ⟨j.text, tells_of_written (written_of_toJson hv hj), fun w h => ?_⟩
    rw [canonicalText, (hsame w h j).1 hj]
    rfl
  | error e =>
    refine .inr fun w h => ?_
    rw [canonicalText]
    cases hw : w.toJson with
    | error f => exact ⟨f, rfl⟩
    | ok j =>
      rw [(hsame w h j).2 hw] at hj
      cases hj

/-- A mapping that holds a tuple with a morphism and a mapping with a key that is no text. -/
theorem canonicalText_canonical_of_two_keys :
    let pair := tuple [int 1, morphism .cond]
    let glyph := mapping [(null, str "λ")]
    (mapping [(str "b", pair), (str "a", glyph)]).Ordinary ∧
      Tells "\x7b\"a\":\x7b\"null\":\"\\u03bb\"\x7d,\"b\":[1,5]\x7d"
        (mapping [(str "b", pair), (str "a", glyph)]) ∧
      (mapping [(str "a", glyph), (str "b", pair)]).canonicalText =
        (mapping [(str "b", pair), (str "a", glyph)]).canonicalText := by
  intro pair glyph
  have hpair : pair.Ordinary :=
    .tuple (List.forall_mem_cons.2 ⟨.int 1, List.forall_mem_singleton.2 (.morphism .cond)⟩)
  have hglyph : glyph.Ordinary :=
    .mapping (List.pairwise_singleton _ _) (List.forall_mem_singleton.2 (.str "λ"))
  have hv : (mapping [(str "b", pair), (str "a", glyph)]).Ordinary :=
    .mapping (List.pairwise_pair.2 ⟨rfl, rfl⟩)
      (List.forall_mem_cons.2 ⟨hpair, List.forall_mem_singleton.2 hglyph⟩)
  have htext : (mapping [(str "b", pair), (str "a", glyph)]).canonicalText =
      .ok "\x7b\"a\":\x7b\"null\":\"\\u03bb\"\x7d,\"b\":[1,5]\x7d" := by cbv
  rcases canonicalText_canonical hv with ⟨s, htells, hs⟩ | hfails
  · have hother := hs _ (.mapping rfl (List.forall₂_same.2 fun v _ => .refl v) (.swap _ _ []))
    have hown := hs _ (.refl _)
    rw [htext] at hown
    cases hown
    exact ⟨hv, htells, hother.trans htext.symm⟩
  · obtain ⟨f, hf⟩ := hfails _ (.refl _)
    rw [htext] at hf
    cases hf

/-- Keys that would have the same name are of different kinds, which are not compared. -/
example : (mapping [(int 1, null), (str "1", null)]).canonicalText =
    .error (.notOrdered "<" "str" "int") := by cbv

end Value

end Heptad
