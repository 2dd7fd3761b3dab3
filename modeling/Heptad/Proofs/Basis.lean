import Heptad.Basis

/-!
# Values that name morphisms

A morphism is named by itself or by its ordinal, and by no other value.

* `Names`: a value names a morphism;
* `Value.toMorphism?_eq_ok_iff`: these are the addresses in the basis.
-/

namespace Heptad

/-- A step names a morphism: it is the morphism or its ordinal. -/
inductive Names : Value → Morphism → Prop
  | morphism (m : Morphism) : Names (.morphism m) m
  | ordinal (m : Morphism) : Names (.int m.ordinal) m

/-- The ordinals are the integers inside the basis. -/
theorem Morphism.ofInt?_eq_some_iff {i : Int} {m : Morphism} :
    ofInt? i = some m ↔ i = m.ordinal := by
  rw [ofInt?]
  constructor
  · intro h
    split at h
    · cases h
    · rename_i hi
      rw [ordinal_of_ofOrdinal? h, Int.toNat_of_nonneg (Int.not_lt.1 hi)]
  · rintro rfl
    exact ofOrdinal?_ordinal m

/-- What addresses a morphism is what names it. -/
theorem Value.toMorphism?_eq_ok_iff {v : Value} {m : Morphism} :
    v.toMorphism? = .ok m ↔ Names v m := by
  constructor
  · intro h
    cases v with
    | morphism n =>
      cases h
      exact .morphism m
    | int i =>
      rw [toMorphism?] at h
      split at h
      · rename_i n hn
        cases h
        rw [Morphism.ofInt?_eq_some_iff.1 hn]
        exact .ordinal m
      · cases h
    | null | bool | float | str | bytes | list | tuple | mapping | literal | sub | noRule
    | reentrant => cases h
  · intro h
    cases h with
    | morphism => rfl
    | ordinal => rw [toMorphism?, Morphism.ofInt?_eq_some_iff.2 rfl]

end Heptad
