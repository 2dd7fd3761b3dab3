import Heptad.Proofs.Basis
import Heptad.Proofs.Derivation.Canonical
import Heptad.Proofs.Field.Evaluation

/-!
# Derivations of morphisms

Steps are told apart three times: when a derivation of the field language is
accepted, when it is tagged for the hash and when it is shown. Of a step that names
a morphism, by itself or by its ordinal, all three make the same morphism, so what
can be evaluated can also be hashed and shown.

* `Field.acceptAll_eq_ok_iff`: the derivations that are accepted, each of whose steps
  `Names` a morphism;
* `canonicalText_of_names`, `hash_of_names`, `render_of_names`: their canonical text
  (`ordinalsText`), its hash and the text they are shown as;
* `Field.Evaluator.names_of_evaluate_eq_ok`: a call that returns was given such a
  derivation.
-/

namespace Heptad

/-! ## Accepted -/

namespace Field

theorem accept_eq_ok_iff {i : Nat} {v : Value} {m : Morphism} :
    accept i v = .ok m ↔ Names v m := by
  cases v with
  | morphism n => exact Value.toMorphism?_eq_ok_iff (v := .morphism n)
  | int j => exact Value.toMorphism?_eq_ok_iff (v := .int j)
  | null | bool | float | str | bytes | list | tuple | mapping | literal | sub | noRule
  | reentrant => exact iff_of_false nofun nofun

/-- A derivation is accepted if each step names a morphism. -/
theorem acceptAll_eq_ok_iff {i : Nat} {vs : List Value} {ms : List Morphism} :
    acceptAll i vs = .ok ms ↔ List.Forall₂ Names vs ms := by
  induction vs generalizing i ms with
  | nil => rw [acceptAll, List.forall₂_nil_left_iff, Except.ok.injEq, eq_comm]
  | cons v vs ih =>
    rw [acceptAll_cons, List.forall₂_cons_left_iff]
    refine exists_congr fun m => exists_congr fun rest => ?_
    rw [accept_eq_ok_iff, ih, eq_comm]

end Field

/-! ## Hashed -/

namespace Derivation

/-- The tagged form of a morphism. -/
def tagMorphism (m : Morphism) : Json := tagged "m" (.int m.ordinal)

theorem tagStep_of_names {v : Value} {m : Morphism} (h : Names v m) :
    tagStep v = .ok (tagMorphism m) := by
  cases h with
  | morphism => rfl
  | ordinal => rw [tagStep, Morphism.ofInt?_eq_some_iff.2 rfl, tagMorphism]

theorem tagSteps_of_names {vs : List Value} {ms : List Morphism} (h : List.Forall₂ Names vs ms) :
    tagSteps vs = .ok (ms.map tagMorphism) := by
  rw [tagSteps_eq_ok_iff, List.forall₂_map_right_iff]
  exact h.imp fun _ _ => tagStep_of_names

/-- The canonical text of a derivation that names the given morphisms. -/
def ordinalsText (ms : List Morphism) : String :=
  "[" ++ ",".intercalate (ms.map fun m => "\x7b\"m\":" ++ toString m.ordinal ++ "\x7d") ++ "]"

theorem fault?_tagMorphism (ms : List Morphism) :
    (Json.arr (ms.map tagMorphism)).fault? = none := by
  rw [Json.fault?, Json.numbers]
  induction ms with
  | nil => rfl
  | cons m ms ih =>
    rw [List.map_cons, Json.itemNumbers, List.findSome?_append, ih]
    cases m <;> rfl

theorem commas_eq_intercalate (ps : List (List Char)) : Json.commas ps = [','].intercalate ps := by
  induction ps with
  | nil => rfl
  | cons p ps ih =>
    cases ps with
    | nil => exact (List.append_nil p).symm
    | cons q ps => exact congrArg (fun cs => p ++ ',' :: cs) ih

theorem itemChars_tagMorphism (ms : List Morphism) :
    Json.itemChars (ms.map tagMorphism) =
      (ms.map fun m => "\x7b\"m\":" ++ toString m.ordinal ++ "\x7d").map String.toList := by
  induction ms with
  | nil => rfl
  | cons m ms ih =>
    have hm : (tagMorphism m).chars = ("\x7b\"m\":" ++ toString m.ordinal ++ "\x7d").toList := by
      cases m <;> rfl
    rw [List.map_cons, Json.itemChars, ih, hm]
    rfl

theorem canonicalText_of_names {vs : Derivation} {ms : List Morphism}
    (h : List.Forall₂ Names vs ms) : vs.canonicalText = .ok (ordinalsText ms) := by
  refine canonicalText_eq_ok_iff.2 ⟨_, tagSteps_of_names h, fault?_tagMorphism ms, ?_⟩
  rw [Json.text, Json.chars, commas_eq_intercalate, itemChars_tagMorphism,
    ← String.ofList_toList (s := ordinalsText ms), ordinalsText, String.toList_append,
    String.toList_append, String.toList_intercalate]
  rfl

theorem hash_of_names {vs : Derivation} {ms : List Morphism} (h : List.Forall₂ Names vs ms) :
    vs.hash = .ok (sha256 (ordinalsText ms)) := by
  rw [hash, canonicalText_of_names h]
  rfl

/-! ## Shown -/

theorem renderStep_of_names {v : Value} {m : Morphism} (h : Names v m) :
    renderStep v = m.symbol := by
  cases h with
  | morphism => rfl
  | ordinal => rw [renderStep, Morphism.ofInt?_eq_some_iff.2 rfl]

theorem isShowable_of_names {v : Value} {m : Morphism} (h : Names v m) : v.isShowable = true := by
  cases h with
  | morphism => rfl
  | ordinal => cases m <;> rfl

/-- Steps that name morphisms have a text. -/
theorem areShowable_of_names {vs : Derivation} {ms : List Morphism} (h : List.Forall₂ Names vs ms) :
    Value.areShowable vs = true := by
  induction h with
  | nil => rfl
  | cons hv _ ih => rw [Value.areShowable, isShowable_of_names hv, ih, Bool.and_self]

theorem render_of_names {vs : Derivation} {ms : List Morphism} (h : List.Forall₂ Names vs ms) :
    vs.render = " ".intercalate (ms.map Morphism.symbol) := by
  have hsteps : renderSteps vs = ms.map Morphism.symbol := by
    induction h with
    | nil => rfl
    | cons hv _ ih => rw [renderSteps, renderStep_of_names hv, ih, List.map_cons]
  rw [render, hsteps, blanks]

end Derivation

/-! ## Evaluated -/

/-- A call that returns was given steps that name morphisms, and ran these. -/
theorem Field.Evaluator.names_of_evaluate_eq_ok {e : Evaluator} {derivation : Value} {field : Field}
    (h : (e.evaluate derivation).outcome = .ok field) :
    ∃ steps ms, derivation.items? = .ok steps ∧ List.Forall₂ Names steps ms ∧
      field = (e.state.run e.table ms).field ∧
      (e.evaluate derivation).after.state = e.state.run e.table ms := by
  obtain ⟨hf, steps, ms, hi, ha⟩ := accepted_of_evaluate_eq_ok h
  obtain ⟨hfield, hstate⟩ := evaluate_of_accepted hf hi ha
  rw [h, Except.ok.injEq] at hfield
  exact ⟨steps, ms, hi, acceptAll_eq_ok_iff.1 ha, hfield, hstate⟩

end Heptad
