import Mathlib.Data.List.Forall2
import Heptad.Basis
import Heptad.Value.Basic

/-!
# Derivations that are alike

What a hash of a derivation leaves out of account: whether a step is a morphism
or its ordinal, and in which order the entries of a mapping were put in.

* `named`: a step with its ordinal, if it is one, replaced by the morphism;
* `Alike`: equality of steps and values up to the order of entries.

Entries can be in a different order for two reasons: the order in which they were
put in, which does not count, and several values for one key, where it does.
`Reordered` exchanges neighbours with different keys only, so that it relates
permutations (`Reordered.perm`) in which the values of one key keep their order.
-/

namespace Heptad

/-! ## The order of entries -/

/-- The same entries up to exchanges of neighbours with different keys. -/
inductive Reordered {α β : Type} : List (α × β) → List (α × β) → Prop
  | refl (es : List (α × β)) : Reordered es es
  | swap {e f : α × β} (es : List (α × β)) : e.1 ≠ f.1 → Reordered (e :: f :: es) (f :: e :: es)
  | cons (e : α × β) {es fs : List (α × β)} : Reordered es fs → Reordered (e :: es) (e :: fs)
  | trans {es fs gs : List (α × β)} : Reordered es fs → Reordered fs gs → Reordered es gs

namespace Reordered

variable {α β : Type} {es fs : List (α × β)}

theorem symm (h : Reordered es fs) : Reordered fs es := by
  induction h with
  | refl es => exact .refl es
  | swap es hne => exact .swap es hne.symm
  | cons e _ ih => exact .cons e ih
  | trans _ _ ih ih' => exact ih'.trans ih

/-- Reordered entries are a permutation. -/
theorem perm (h : Reordered es fs) : es.Perm fs := by
  induction h with
  | refl es => exact .refl es
  | swap es _ => exact .swap _ _ es
  | cons e _ ih => exact .cons e ih
  | trans _ _ ih ih' => exact ih.trans ih'

/-- What entries become one by one is reordered with them, if different keys
    become different keys. -/
theorem exists_forall₂ {γ δ : Type} {R : α × β → γ × δ → Prop}
    (hR : ∀ {e f m n}, R e m → R f n → m.1 = n.1 → e.1 = f.1) (h : Reordered es fs)
    {ms : List (γ × δ)} (hes : List.Forall₂ R es ms) :
    ∃ ns, List.Forall₂ R fs ns ∧ Reordered ms ns := by
  induction h generalizing ms with
  | refl => exact ⟨ms, hes, .refl ms⟩
  | swap es hne =>
    obtain _ | ⟨he, _ | ⟨hf, hes⟩⟩ := hes
    exact ⟨_, .cons hf (.cons he hes), .swap _ fun hk => hne (hR he hf hk)⟩
  | cons e _ ih =>
    obtain _ | ⟨he, hes⟩ := hes
    obtain ⟨ns, hns, hmn⟩ := ih hes
    exact ⟨_, .cons he hns, .cons _ hmn⟩
  | trans _ _ ih ih' =>
    obtain ⟨ns, hns, hmn⟩ := ih hes
    obtain ⟨ls, hls, hnl⟩ := ih' hns
    exact ⟨ls, hls, hmn.trans hnl⟩

end Reordered

/-! ## Ordinals and morphisms -/

namespace Derivation

mutual

/-- A step with ordinals replaced by the morphisms they name, also in
    sub-derivations. -/
def named : Value → Value
  | .int i =>
    match Morphism.ofInt? i with
    | some m => .morphism m
    | none => .int i
  | .sub steps => .sub (namedAll steps)
  | v => v

/-- The steps of a derivation with ordinals replaced by morphisms. -/
def namedAll : List Value → List Value
  | [] => []
  | v :: vs => named v :: namedAll vs

end

/-! ## The order forgotten -/

mutual

/-- The same step or value up to the order of entries, at any depth. -/
inductive Alike : Value → Value → Prop
  | refl (v : Value) : Alike v v
  | literal {v w : Value} : Alike v w → Alike (.literal v) (.literal w)
  | sub {vs ws : List Value} : AlikeAll vs ws → Alike (.sub vs) (.sub ws)
  | tuple {vs ws : List Value} : AlikeAll vs ws → Alike (.tuple vs) (.tuple ws)
  | list {vs ws : List Value} : AlikeAll vs ws → Alike (.list vs) (.list ws)
  | mapping {es fs gs : List (Value × Value)} : AlikeEntries es fs → Reordered fs gs →
      Alike (.mapping es) (.mapping gs)

/-- The same steps or values one by one. -/
inductive AlikeAll : List Value → List Value → Prop
  | nil : AlikeAll [] []
  | cons {v w : Value} {vs ws : List Value} : Alike v w → AlikeAll vs ws →
      AlikeAll (v :: vs) (w :: ws)

/-- The same keys with the same values one by one. -/
inductive AlikeEntries : List (Value × Value) → List (Value × Value) → Prop
  | nil : AlikeEntries [] []
  | cons {k v w : Value} {es fs : List (Value × Value)} : Alike v w → AlikeEntries es fs →
      AlikeEntries ((k, v) :: es) ((k, w) :: fs)

end

end Derivation

end Heptad
