import Heptad.Primitive
import Heptad.Proofs.Outcome

/-!
# What operands carry

A reentrant operand carries the steps it calls back with. Nobody looks at them but
the one who answers the call: values that differ in what their reentrant operands
carry are shown, tested, counted and computed with alike.

* `Value.mute`: a value with what its reentrant operands carry left out;
* `Value.repr_mute`, `Value.isShowable_mute`, `Value.truthy_mute`, `Value.items?_mute`: it
  makes no difference to what can be read off a value;
* `Value.sub?_mute`, `Value.product?_mute`: nor to the results of arithmetic.
-/

namespace Heptad

namespace Value

mutual

/-- A value with what its reentrant operands carry left out. -/
def mute : Value → Value
  | list items => list (muteAll items)
  | tuple items => tuple (muteAll items)
  | mapping entries => mapping (muteEntries entries)
  | literal v => literal v.mute
  | sub steps => sub (muteAll steps)
  | reentrant _ => reentrant []
  | v => v

/-- Several values with what their operands carry left out. -/
def muteAll : List Value → List Value
  | [] => []
  | v :: vs => v.mute :: muteAll vs

/-- The entries of a mapping with what their operands carry left out. -/
def muteEntries : List (Value × Value) → List (Value × Value)
  | [] => []
  | (k, v) :: es => (k.mute, v.mute) :: muteEntries es

end

theorem muteAll_eq_map (vs : List Value) : muteAll vs = vs.map mute := by
  induction vs with
  | nil => rfl
  | cons v vs ih => rw [muteAll, ih, List.map_cons]

theorem drop_muteAll (n : Nat) (vs : List Value) : (muteAll vs).drop n = muteAll (vs.drop n) := by
  rw [muteAll_eq_map, muteAll_eq_map, List.map_drop]

theorem getLast?_muteAll {v : Value} {vs : List Value} (h : vs.getLast? = some v) :
    (muteAll vs).getLast? = some v.mute := by
  rw [muteAll_eq_map, List.getLast?_map, h, Option.map_some]

theorem fst_muteEntries (es : List (Value × Value)) :
    (muteEntries es).map Prod.fst = muteAll (es.map Prod.fst) := by
  induction es with
  | nil => rfl
  | cons e es ih => rw [muteEntries, List.map_cons, ih, List.map_cons, muteAll]

/-! ## What is read off a value -/

mutual

/-- What is carried is not shown. -/
theorem repr_mute : (v : Value) → v.mute.repr = v.repr
  | list items => congrArg (fun ps => s!"[{commas ps}]") (reprs_muteAll items)
  | tuple items => congrArg parenthesized (reprs_muteAll items)
  | mapping entries => congrArg braced (reprEntries_muteEntries entries)
  | literal v => congrArg (fun shown => s!"Literal(value={shown})") (repr_mute v)
  | sub steps =>
    congrArg (fun ps => s!"SubDerivation(derivation={parenthesized ps})") (reprs_muteAll steps)
  | null | bool _ | int _ | float _ | str _ | bytes _ | morphism _ | noRule | reentrant _ => rfl

theorem reprs_muteAll : (vs : List Value) → reprs (muteAll vs) = reprs vs
  | [] => rfl
  | v :: vs => by rw [muteAll, reprs, reprs, repr_mute v, reprs_muteAll vs]

theorem reprEntries_muteEntries : (es : List (Value × Value)) →
    reprEntries (muteEntries es) = reprEntries es
  | [] => rfl
  | (k, v) :: es => by
    rw [muteEntries, reprEntries, reprEntries, repr_mute k, repr_mute v, reprEntries_muteEntries es]

end

mutual

/-- Whether a value has a text does not depend on what is carried. -/
theorem isShowable_mute : (v : Value) → v.mute.isShowable = v.isShowable
  | list items | tuple items | sub items => areShowable_muteAll items
  | mapping entries => entriesShowable_muteEntries entries
  | literal v => isShowable_mute v
  | null | bool _ | int _ | float _ | str _ | bytes _ | morphism _ | noRule | reentrant _ => rfl

theorem areShowable_muteAll : (vs : List Value) → areShowable (muteAll vs) = areShowable vs
  | [] => rfl
  | v :: vs => by rw [muteAll, areShowable, areShowable, isShowable_mute v, areShowable_muteAll vs]

theorem entriesShowable_muteEntries : (es : List (Value × Value)) →
    entriesShowable (muteEntries es) = entriesShowable es
  | [] => rfl
  | (k, v) :: es => by
    rw [muteEntries, entriesShowable, entriesShowable, isShowable_mute k, isShowable_mute v,
      entriesShowable_muteEntries es]

end

theorem typeName_mute (v : Value) : v.mute.typeName = v.typeName := by
  cases v <;> rfl

theorem int?_mute (v : Value) : v.mute.int? = v.int? := by
  cases v <;> rfl

theorem number?_mute (v : Value) : v.mute.number? = v.number? := by
  cases v <;> rfl

theorem isZero_mute (v : Value) : v.mute.isZero = v.isZero := by
  cases v <;> rfl

theorem length_muteAll (vs : List Value) : (muteAll vs).length = vs.length := by
  rw [muteAll_eq_map, List.length_map]

theorem truthy_mute (v : Value) : v.mute.truthy = v.truthy := by
  cases v with
  | list items | tuple items => cases items <;> rfl
  | mapping entries =>
    cases entries with
    | nil | cons => rfl
  | null | bool | int | float | str | bytes | morphism | literal | sub | noRule | reentrant => rfl

theorem sequenceLength?_mute (v : Value) : v.mute.sequenceLength? = v.sequenceLength? := by
  cases v with
  | list items | tuple items => exact congrArg some (length_muteAll items)
  | null | bool | int | float | str | bytes | mapping | morphism | literal | sub | noRule
  | reentrant => rfl

/-- What can be gone through can still be. -/
theorem items?_mute (v : Value) : v.mute.items? = v.items?.map muteAll := by
  cases v with
  | list items | tuple items => rfl
  | mapping entries => exact congrArg Except.ok (fst_muteEntries entries)
  | str s =>
    refine congrArg Except.ok ?_
    rw [muteAll_eq_map, List.map_map]
    rfl
  | bytes b =>
    refine congrArg Except.ok ?_
    rw [muteAll_eq_map, List.map_map]
    rfl
  | null | bool | int | float | morphism | literal | sub | noRule | reentrant => rfl

/-! ## Arithmetic -/

theorem mute_ofNumber (n : Number) : (ofNumber n).mute = ofNumber n := by
  cases n <;> rfl

theorem mute_combine (ints : Int → Int → Int) (floats : Binary64 → Binary64 → Binary64)
    (x y : Number) :
    ((Number.combine ints floats x y).map ofNumber).map mute =
      (Number.combine ints floats x y).map ofNumber := by
  cases Number.combine ints floats x y with
  | error f => rfl
  | ok n => exact congrArg Except.ok (mute_ofNumber n)

theorem mute_copies (n : Nat) (v : Value) : (v.copies n).mute = v.mute.copies n := by
  cases v with
  | list items =>
    rw [copies, mute, mute, copies, muteAll_eq_map, muteAll_eq_map, List.map_flatten,
      List.map_replicate]
  | tuple items =>
    rw [copies, mute, mute, copies, muteAll_eq_map, muteAll_eq_map, List.map_flatten,
      List.map_replicate]
  | null | bool | int | float | str | bytes | mapping | morphism | literal | sub | noRule
  | reentrant => rfl

theorem tooLong_mute (v : Value) : v.mute.tooLong = v.tooLong := by
  cases v <;> rfl

theorem repeated_mute (v : Value) (length : Nat) (count : Int) :
    v.mute.repeated length count = (v.repeated length count).map mute := by
  rw [repeated, repeated, tooLong_mute]
  repeat' split
  · rfl
  · rfl
  · rfl
  · rfl
  · exact congrArg Except.ok (mute_copies _ v).symm

theorem sub?_mute (a b : Value) : a.mute.sub? b.mute = (a.sub? b).map mute := by
  rw [sub?, sub?, number?_mute, number?_mute, typeName_mute, typeName_mute]
  split
  · exact (mute_combine _ _ _ _).symm
  · rfl

theorem product?_mute (a b : Value) : a.mute.product? b.mute = (a.product? b).map mute := by
  rw [product?, product?, number?_mute, number?_mute, sequenceLength?_mute, sequenceLength?_mute,
    int?_mute, int?_mute, typeName_mute, typeName_mute]
  split
  · exact (mute_combine _ _ _ _).symm
  · split
    · split
      · exact repeated_mute _ _ _
      · rfl
    · split
      · exact repeated_mute _ _ _
      · rfl
    · rfl

end Value

end Heptad
