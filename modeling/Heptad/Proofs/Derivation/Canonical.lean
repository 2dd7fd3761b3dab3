import Heptad.Proofs.Derivation.ByName
import Heptad.Proofs.Derivation.Tags
import Heptad.Proofs.Json.Reader

/-!
# What the canonical text tells

The canonical text of a derivation tells everything about it but what `named` and
`Alike` leave out. Two encodings follow each other: the tags, of which values and
steps of one kind with the same parts are the only ones with the same tree, and
the interchange format, of which a tree is read back.

* `tagValue_eq_iff`: values become the same tree iff they are alike;
* `tagSteps_eq_iff`: derivations become the same trees iff they are alike once
  ordinals have been replaced;
* `canonicalText_eq_iff`: so the same canonical text.
-/

namespace Heptad

namespace Derivation

/-! ## Values -/

/-- Entries in another order become members in another order. -/
theorem exists_members {es fs : List (Value × Value)} (h : Reordered es fs)
    {ms : List (String × Json)} (hes : List.Forall₂ EntryTags es ms) :
    ∃ ns, List.Forall₂ EntryTags fs ns ∧ Reordered ms ns :=
  h.exists_forall₂ (fun he hf hk => by rw [he.1, hf.1, hk]) hes

/-- Members in another order are those of entries in another order. -/
theorem exists_entries {ms ns : List (String × Json)} (h : Reordered ms ns)
    {es : List (Value × Value)} (hes : List.Forall₂ EntryTags es ms) :
    ∃ fs, List.Forall₂ EntryTags fs ns ∧ Reordered es fs := by
  obtain ⟨fs, hfs, hr⟩ := h.exists_forall₂ (R := flip EntryTags)
    (fun he hf hk => Value.str.inj (he.1.symm.trans (hk.trans hf.1))) (.flip hes)
  exact ⟨fs, hfs.flip, hr⟩

mutual

/-- Values of the same kind with the same parts are alike. -/
theorem alike_of_tags : (v : Value) → {w : Value} → {s : Shape} → Tags v s → Tags w s → Alike v w
  | .null, _, _, .null, .null => .refl _
  | .bool _, _, _, .bool _, .bool _ => .refl _
  | .int _, _, _, .int _, .int _ => .refl _
  | .float _, _, _, .float _, .float _ => .refl _
  | .str _, _, _, .str _, .str _ => .refl _
  | .morphism _, _, _, .morphism _, .morphism _ => .refl _
  | .tuple items, _, _, .tuple h, .tuple h' => .tuple (alikeAll_of_tags items h h')
  | .list items, _, _, .list h, .list h' => .list (alikeAll_of_tags items h h')
  | .mapping entries, _, _, .mapping h hb, .mapping h' hb' => by
    -- Entries of the second mapping are exchanged until they become the members of
    -- the first in the order they have there.
    obtain ⟨fs, hfs, hr⟩ := exists_entries (byName_eq_iff.1 (hb'.trans hb.symm)) h'
    exact .mapping (alikeEntries_of_tags entries h hfs) hr.symm

theorem alikeAll_of_tags : (vs : List Value) → {ws : List Value} → {js : List Json} →
    List.Forall₂ (fun v j => tagValue v = .ok j) vs js →
    List.Forall₂ (fun v j => tagValue v = .ok j) ws js → AlikeAll vs ws
  | [], _, _, .nil, .nil => .nil
  | v :: vs, _, _, .cons hv hvs, .cons hw hws => by
    obtain ⟨s, hs, rfl⟩ := exists_tags hv
    exact .cons (alike_of_tags v hs (tagValue_eq_ok_iff.1 hw)) (alikeAll_of_tags vs hvs hws)

theorem alikeEntries_of_tags : (es : List (Value × Value)) → {fs : List (Value × Value)} →
    {ms : List (String × Json)} → List.Forall₂ EntryTags es ms → List.Forall₂ EntryTags fs ms →
    AlikeEntries es fs
  | [], _, _, .nil, .nil => .nil
  | (k, v) :: es, _, _, .cons he hes, .cons (a := (l, w)) hf hfs => by
    obtain rfl : k = l := he.1.trans hf.1.symm
    obtain ⟨s, hs, hj⟩ := exists_tags he.2
    have hw : tagValue w = .ok s.json := hj ▸ hf.2
    exact .cons (alike_of_tags v hs (tagValue_eq_ok_iff.1 hw)) (alikeEntries_of_tags es hes hfs)

end

mutual

/-- Values that are alike are of the same kind with the same parts. -/
theorem tags_of_alike : {v w : Value} → Alike v w → {s : Shape} → Tags v s → Tags w s
  | _, _, .refl _, _, h => h
  | _, _, .tuple hall, _, .tuple h => .tuple (tags_of_alikeAll hall h)
  | _, _, .list hall, _, .list h => .list (tags_of_alikeAll hall h)
  | _, _, .mapping hall hr, _, .mapping h hb => by
    obtain ⟨ns, hns, hmn⟩ := exists_members hr (tags_of_alikeEntries hall h)
    exact .mapping hns ((byName_of_reordered hmn).symm.trans hb)

theorem tags_of_alikeAll : {vs ws : List Value} → AlikeAll vs ws → {js : List Json} →
    List.Forall₂ (fun v j => tagValue v = .ok j) vs js →
    List.Forall₂ (fun v j => tagValue v = .ok j) ws js
  | _, _, .nil, _, .nil => .nil
  | _, _, .cons hvw hall, _, .cons hv hvs => by
    obtain ⟨s, hs, rfl⟩ := exists_tags hv
    exact .cons (tagValue_of_tags (tags_of_alike hvw hs)) (tags_of_alikeAll hall hvs)

theorem tags_of_alikeEntries : {es fs : List (Value × Value)} → AlikeEntries es fs →
    {ms : List (String × Json)} → List.Forall₂ EntryTags es ms → List.Forall₂ EntryTags fs ms
  | _, _, .nil, _, .nil => .nil
  | _, _, .cons hvw hall, _, .cons he hes => by
    obtain ⟨s, hs, hj⟩ := exists_tags he.2
    have hw := tagValue_of_tags (tags_of_alike hvw hs)
    exact .cons ⟨he.1, hw.trans (congrArg Except.ok hj)⟩ (tags_of_alikeEntries hall hes)

end

/-- Values become the same tree iff they are alike. -/
theorem tagValue_eq_iff {v w : Value} {j : Json} (hv : tagValue v = .ok j) :
    tagValue w = .ok j ↔ Alike v w := by
  obtain ⟨s, hs, rfl⟩ := exists_tags hv
  constructor
  · intro hw
    exact alike_of_tags v hs (tagValue_eq_ok_iff.1 hw)
  · intro h
    exact tagValue_of_tags (tags_of_alike h hs)

/-! ## Steps -/

mutual

/-- An ordinal is tagged as the morphism it names. -/
theorem tagStep_named : (v : Value) → tagStep (named v) = tagStep v
  | .int i => by
    -- Outside the basis nothing is replaced.
    rw [named]
    split
    · rename_i m hm
      rw [tagStep, tagStep, hm]
    · rfl
  | .sub steps => by rw [named, tagStep, tagStep, tagSteps_namedAll steps]
  | .null | .bool _ | .float _ | .str _ | .bytes _ | .list _ | .tuple _ | .mapping _
  | .morphism _ | .literal _ | .noRule | .reentrant _ => rfl

theorem tagSteps_namedAll : (vs : List Value) → tagSteps (namedAll vs) = tagSteps vs
  | [] => rfl
  | v :: vs => by rw [namedAll, tagSteps, tagSteps, tagStep_named v, tagSteps_namedAll vs]

end

mutual

/-- Steps of the same kind with the same parts are alike, once ordinals have been
    replaced. -/
theorem alike_of_stepTags : (v : Value) → {w : Value} → {s : StepShape} →
    StepTags v s → StepTags w s → Alike (named v) (named w)
  | _, _, _, .morphism hv, .morphism hw => by
    rw [hv, hw]
    exact .refl _
  | .literal _, _, _, .literal hv, .literal hw => .literal ((tagValue_eq_iff hv).1 hw)
  | .sub steps, _, _, .sub hv, .sub hw => .sub (alikeAll_of_stepTags steps hv hw)

theorem alikeAll_of_stepTags : (vs : List Value) → {ws : List Value} → {js : List Json} →
    List.Forall₂ (fun v j => tagStep v = .ok j) vs js →
    List.Forall₂ (fun v j => tagStep v = .ok j) ws js → AlikeAll (namedAll vs) (namedAll ws)
  | [], _, _, .nil, .nil => .nil
  | v :: vs, _, _, .cons hv hvs, .cons hw hws => by
    obtain ⟨s, hs, rfl⟩ := exists_stepTags hv
    exact .cons (alike_of_stepTags v hs (stepTags_of_tagStep hw)) (alikeAll_of_stepTags vs hvs hws)

end

mutual

/-- Steps that are alike are tagged alike. -/
theorem tagStep_of_alike : {v w : Value} → Alike v w → {j : Json} →
    tagStep v = .ok j → tagStep w = .ok j
  | _, _, .refl _, _, h => h
  | _, _, .literal hvw, _, h => by
    obtain ⟨k, hk, rfl⟩ := map_eq_ok.1 (mapError_eq_ok.1 h)
    exact mapError_eq_ok.2 (map_eq_ok.2 ⟨k, (tagValue_eq_iff hk).2 hvw, rfl⟩)
  | _, _, .sub hall, _, h => by
    obtain ⟨js, hjs, h⟩ := bind_eq_ok.1 h
    exact bind_eq_ok.2 ⟨js, tagSteps_of_alikeAll hall hjs, h⟩

theorem tagSteps_of_alikeAll : {vs ws : List Value} → AlikeAll vs ws → {js : List Json} →
    tagSteps vs = .ok js → tagSteps ws = .ok js
  | _, _, .nil, _, h => h
  | _, _, .cons hvw hall, _, h => by
    obtain ⟨j, hj, h⟩ := bind_eq_ok.1 h
    obtain ⟨js, hjs, h⟩ := bind_eq_ok.1 h
    exact bind_eq_ok.2 ⟨j, tagStep_of_alike hvw hj,
      bind_eq_ok.2 ⟨js, tagSteps_of_alikeAll hall hjs, h⟩⟩

end

/-- Derivations become the same trees iff they are alike. -/
theorem tagSteps_eq_iff {a b : Derivation} {js : List Json} (ha : tagSteps a = .ok js) :
    tagSteps b = .ok js ↔ AlikeAll (namedAll a) (namedAll b) := by
  constructor
  · intro hb
    exact alikeAll_of_stepTags a (tagSteps_eq_ok_iff.1 ha) (tagSteps_eq_ok_iff.1 hb)
  · intro h
    rw [← tagSteps_namedAll] at ha ⊢
    exact tagSteps_of_alikeAll h ha

/-! ## Derivations -/

/-- A canonical text is the text of the tagged steps, whose numbers can be written. -/
theorem canonicalText_eq_ok_iff {a : Derivation} {s : String} :
    a.canonicalText = .ok s ↔
      ∃ js, tagSteps a = .ok js ∧ (Json.arr js).fault? = none ∧ (Json.arr js).text = s := by
  rw [canonicalText, map_eq_ok]
  constructor
  · rintro ⟨j, hj, rfl⟩
    obtain ⟨js, hjs, hj⟩ := bind_eq_ok.1 hj
    dsimp only at hj
    split at hj
    · rename_i hfault
      obtain rfl := Except.ok.inj hj
      exact ⟨js, hjs, hfault, rfl⟩
    · exact nomatch hj
  · rintro ⟨js, hjs, hfault, rfl⟩
    refine ⟨.arr js, bind_eq_ok.2 ⟨js, hjs, ?_⟩, rfl⟩
    dsimp only
    rw [hfault]

/-- Derivations with canonical texts have the same one iff they are alike once
    ordinals have been replaced. -/
theorem canonicalText_eq_iff {a b : Derivation} {s t : String} (ha : a.canonicalText = .ok s)
    (hb : b.canonicalText = .ok t) : s = t ↔ AlikeAll (namedAll a) (namedAll b) := by
  obtain ⟨js, hjs, hj, rfl⟩ := canonicalText_eq_ok_iff.1 ha
  obtain ⟨ks, hks, hk, rfl⟩ := canonicalText_eq_ok_iff.1 hb
  replace hj := Json.isFinite_of_fault? hj
  replace hk := Json.isFinite_of_fault? hk
  -- Texts of trees with finite numbers can be read back, so the trees are compared.
  rw [← tagSteps_eq_iff hjs, hks]
  constructor
  · intro h
    obtain rfl := Json.arr.inj (Json.text_injective hj hk h)
    rfl
  · intro h
    rw [Except.ok.inj h]

/-- Ordinals and the order of entries do not show, but whether an entry is a truth
    value or an integer does. -/
theorem canonicalText_eq_iff_of_entries :
    let a : Derivation := [.int 4, .literal (.mapping [(.str "x", .int 1), (.str "list", .null)])]
    let b : Derivation :=
      [.morphism .neg, .literal (.mapping [(.str "list", .null), (.str "x", .int 1)])]
    let c : Derivation :=
      [.morphism .neg, .literal (.mapping [(.str "list", .null), (.str "x", .bool true)])]
    AlikeAll (namedAll a) (namedAll b) ∧ ¬AlikeAll (namedAll a) (namedAll c) := by
  intro a b c
  let text (x : String) :=
    "[\x7b\"m\":4\x7d,\x7b\"lit\":\x7b\"dict\":\x7b\"list\":null,\"x\":" ++ x ++ "\x7d\x7d\x7d]"
  have ha : a.canonicalText = .ok (text "1") := rfl
  have hb : b.canonicalText = .ok (text "1") := rfl
  have hc : c.canonicalText = .ok (text "true") := rfl
  refine ⟨(canonicalText_eq_iff ha hb).1 rfl, fun h => ?_⟩
  exact absurd ((canonicalText_eq_iff ha hc).2 h) (by decide)

end Derivation

end Heptad
