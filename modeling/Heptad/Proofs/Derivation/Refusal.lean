import Heptad.Proofs.Derivation.Canonical
import Heptad.Proofs.Value.Showable

/-!
# When a derivation is not hashed

Before a derivation is hashed it is walked through, depth first and from left to
right: into sub-derivations, and into the values of literals. What stands first on
this way and has no canonical form is the reason for which the derivation is refused.
Numbers that cannot be written are found only in the second pass, when the tree is
written, and so count only if nothing else is wrong.

* `visits`: what the walk comes by;
* `Visit.refusal?`: why one of these is refused, on its own;
* `failure?_tagSteps`: the first refusal on the way is the failure of tagging;
* `faults_tagSteps`: the numbers that cannot be written are those on the way;
* `hash_outcome`: how a hash ends, in all cases.
-/

namespace Heptad

namespace Morphism

/-- The integers from zero to six name morphisms. -/
theorem exists_ofInt? {i : Int} (h : 0 ≤ i ∧ i ≤ 6) : ∃ m, ofInt? i = some m := by
  have hlt : i.toNat < all.length := by
    rw [length_all, count]
    omega
  exact ⟨all[i.toNat], (if_neg (Int.not_lt.2 h.1)).trans (List.getElem?_eq_getElem hlt)⟩

/-- An integer outside of these names no morphism. -/
theorem ofInt?_of_outside {i : Int} (h : ¬(0 ≤ i ∧ i ≤ 6)) : ofInt? i = none := by
  rw [ofInt?]
  split
  · rfl
  · refine List.getElem?_eq_none ?_
    rw [length_all, count]
    omega

end Morphism

namespace Derivation

/-! ## The walk -/

/-- What is come by: a step, or a value in a literal. -/
inductive Visit where
  | step (v : Value)
  | value (v : Value)

mutual

/-- A value in a literal, and the values in it. -/
def valueVisits : Value → List Visit
  | .tuple items => .value (.tuple items) :: valuesVisits items
  | .list items => .value (.list items) :: valuesVisits items
  | .mapping entries => .value (.mapping entries) :: entriesVisits entries
  | v => [.value v]

/-- Several values in a literal. -/
def valuesVisits : List Value → List Visit
  | [] => []
  | v :: vs => valueVisits v ++ valuesVisits vs

/-- The values of the entries of a mapping; its keys belong to itself. -/
def entriesVisits : List (Value × Value) → List Visit
  | [] => []
  | (_, v) :: es => valueVisits v ++ entriesVisits es

end

mutual

/-- A step, and what is in it. -/
def stepVisits : Value → List Visit
  | .literal v => .step (.literal v) :: valueVisits v
  | .sub steps => .step (.sub steps) :: visits steps
  | v => [.step v]

/-- What a walk through a derivation comes by, in order. -/
def visits : List Value → List Visit
  | [] => []
  | v :: vs => stepVisits v ++ visits vs

end

/-- Whether a key is a text. -/
def isText : Value → Bool
  | .str _ => true
  | _ => false

namespace Visit

/-- Why something is refused on its own: a step that is none, an integer that names no
    morphism, a value of a kind that has no canonical form, a mapping for its first key
    that is no text. Each of these is shown in the wording of the refusal. -/
def refusal? : Visit → Option Failure
  | step (.morphism _) | step (.literal _) | step (.sub _) => none
  | step (.int i) => if 0 ≤ i ∧ i ≤ 6 then none else some (EvalError.outsideBasis i).raised
  | step v => some (.fault (v.shownIn .notAStep))
  | value .null | value (.bool _) | value (.int _) | value (.float _) | value (.str _)
  | value (.morphism _) | value (.tuple _) | value (.list _) => none
  | value (.mapping entries) =>
    ((entries.map Prod.fst).find? fun k => !isText k).map fun k => .fault (k.shownIn .literalKey)
  | value v => some (.fault (v.shownIn .literalValue))

/-- Why a number is found that cannot be written. -/
def fault? : Visit → Option Fault
  | value (.int i) => Json.numberFault? (.int i)
  | value (.float x) => Json.numberFault? (.float x)
  | _ => none

/-- Whether what is come by has a text. -/
def isShowable : Visit → Bool
  | step v | value v => v.isShowable

/-- A refusal with the reason for it: a wrong type, an integer outside the basis, or
    something that would have to be shown and has no text. -/
inductive Refuses (visit : Visit) : Failure → Prop
  | type {fault : Fault} : fault.kind = .type → Refuses visit (.fault fault)
  | basis (i : Int) : Refuses visit (.evaluation (.outsideBasis i))
  | digits : visit.isShowable = false → Refuses visit (.fault .tooManyDigits)

theorem refuses_shownIn {visit : Visit} {v : Value} {fault : String → Fault}
    (hv : v.isShowable = false → visit.isShowable = false) (hkind : ∀ s, (fault s).kind = .type) :
    visit.Refuses (.fault (v.shownIn fault)) := by
  rw [Value.shownIn]
  split
  · exact .type (hkind _)
  · rename_i h
    exact .digits (hv (Bool.eq_false_iff.2 h))

/-- What is refused on its own is refused for one of these reasons. -/
theorem refuses_of_refusal? {visit : Visit} {failure : Failure}
    (h : visit.refusal? = some failure) : visit.Refuses failure := by
  cases visit with
  | step v =>
    cases v with
    | morphism | literal | sub => cases h
    | int i =>
      rw [refusal?] at h
      split at h
      · cases h
      · cases h
        cases hi : hasDecimal i with
        | true => exact EvalError.raised_of_showable (e := .outsideBasis i) hi ▸ .basis i
        | false => exact EvalError.raised_of_not_showable (e := .outsideBasis i) hi ▸ .digits hi
    | null | bool | float | str | bytes | list | tuple | mapping | noRule | reentrant =>
      cases h
      exact refuses_shownIn id fun _ => rfl
  | value v =>
    cases v with
    | null | bool | int | float | str | morphism | tuple | list => cases h
    | mapping entries =>
      obtain ⟨k, hk, rfl⟩ := Option.map_eq_some_iff.1 h
      obtain ⟨e, he, rfl⟩ := List.mem_map.1 (List.mem_of_find?_eq_some hk)
      refine refuses_shownIn (fun hkey => ?_) fun _ => rfl
      exact Bool.eq_false_iff.2 fun hall => Bool.eq_false_iff.1 hkey
        (Value.entriesShowable_iff.1 hall e he).1
    | bytes | literal | sub | noRule | reentrant =>
      cases h
      exact refuses_shownIn id fun _ => rfl

end Visit

/-- The first refusal on a way. -/
def firstRefusal? (way : List Visit) : Option Failure := way.findSome? Visit.refusal?

theorem firstRefusal?_append (way way' : List Visit) :
    firstRefusal? (way ++ way') = (firstRefusal? way).or (firstRefusal? way') :=
  List.findSome?_append

theorem firstRefusal?_cons_of_none {visit : Visit} (h : visit.refusal? = none) (way : List Visit) :
    firstRefusal? (visit :: way) = firstRefusal? way := by
  rw [firstRefusal?, List.findSome?_cons, h]
  rfl

theorem firstRefusal?_single (visit : Visit) : firstRefusal? [visit] = visit.refusal? := by
  rw [firstRefusal?, List.findSome?_cons]
  cases visit.refusal? <;> rfl

/-! ## The first pass -/

theorem strayKey?_eq_find? (es : List (Value × Value)) :
    strayKey? es = (es.map Prod.fst).find? fun k => !isText k := by
  induction es with
  | nil => rfl
  | cons e es ih =>
    obtain ⟨k, v⟩ := e
    cases k <;> first | exact ih | rfl

mutual

theorem failure?_tagValue : (v : Value) →
    (failure? (tagValue v)).map Failure.fault = firstRefusal? (valueVisits v)
  | .tuple items => by
    rw [tagValue, failure?_bind_pure, failure?_tagValues items, valueVisits]
    rfl
  | .list items => by
    rw [tagValue, failure?_bind_pure, failure?_tagValues items, valueVisits]
    rfl
  | .mapping entries => by
    rw [tagValue, valueVisits]
    cases hk : strayKey? entries with
    | some k =>
      rw [strayKey?_eq_find?] at hk
      rw [firstRefusal?, List.findSome?_cons, Visit.refusal?, hk]
      rfl
    | none =>
      have hnone : (Visit.value (.mapping entries)).refusal? = none := by
        rw [Visit.refusal?, ← strayKey?_eq_find?, hk, Option.map_none]
      rw [failure?_bind_pure, failure?_tagEntries entries hk, firstRefusal?_cons_of_none hnone]
  | .null | .bool _ | .int _ | .float _ | .str _ | .morphism _ => rfl
  | .bytes _ | .literal _ | .sub _ | .noRule | .reentrant _ => rfl

theorem failure?_tagValues : (vs : List Value) →
    (failure? (tagValues vs)).map Failure.fault = firstRefusal? (valuesVisits vs)
  | [] => rfl
  | v :: vs => by
    rw [tagValues, failure?_both, valuesVisits, firstRefusal?_append, ← failure?_tagValue v,
      ← failure?_tagValues vs, Option.map_or]

theorem failure?_tagEntries : (es : List (Value × Value)) → strayKey? es = none →
    (failure? (tagEntries es)).map Failure.fault = firstRefusal? (entriesVisits es)
  | [], _ => rfl
  | (.str s, v) :: es, h => by
    have hv := failure?_tagValue v
    have hes := failure?_tagEntries es h
    have hboth := failure?_both (tagValue v) (tagEntries es) fun j ms => (s, j) :: ms
    rw [entriesVisits, firstRefusal?_append, ← hv, ← hes, ← Option.map_or]
    exact congrArg (Option.map Failure.fault) hboth

end

mutual

theorem failure?_tagStep : (v : Value) → failure? (tagStep v) = firstRefusal? (stepVisits v)
  | .int i => by
    have hint : firstRefusal? (stepVisits (.int i)) = (Visit.step (.int i)).refusal? :=
      firstRefusal?_single _
    rw [hint, Visit.refusal?, tagStep]
    by_cases h : 0 ≤ i ∧ i ≤ 6
    · obtain ⟨m, hm⟩ := Morphism.exists_ofInt? h
      rw [hm, if_pos h]
      rfl
    · rw [Morphism.ofInt?_of_outside h, if_neg h]
      rfl
  | .literal v => by
    rw [tagStep, failure?_mapError, failure?_map, failure?_tagValue, stepVisits]
    rfl
  | .sub steps => by
    rw [tagStep, failure?_bind_pure, failure?_tagSteps, stepVisits]
    rfl
  | .morphism _ => rfl
  | .null | .bool _ | .float _ | .str _ | .bytes _ | .list _ | .tuple _ | .mapping _ | .noRule
  | .reentrant _ => rfl

/-- Tagging fails for what is refused first on the way. -/
theorem failure?_tagSteps : (vs : List Value) → failure? (tagSteps vs) = firstRefusal? (visits vs)
  | [] => rfl
  | v :: vs => by
    rw [tagSteps, failure?_both, failure?_tagStep v, failure?_tagSteps vs, visits,
      firstRefusal?_append]

end

/-! ## The second pass -/

/-- Why numbers cannot be written, for each that cannot. -/
def numberFaults (ns : List Number) : List Fault := ns.filterMap Json.numberFault?

theorem numberFaults_append (ms ns : List Number) :
    numberFaults (ms ++ ns) = numberFaults ms ++ numberFaults ns := List.filterMap_append

/-- Why the numbers on a way cannot be written, for each that cannot. -/
def wayFaults (way : List Visit) : List Fault := way.filterMap Visit.fault?

theorem wayFaults_append (way way' : List Visit) :
    wayFaults (way ++ way') = wayFaults way ++ wayFaults way' := List.filterMap_append

/-- The morphisms on the way are written as their ordinals. -/
theorem numberFaults_ordinal (m : Morphism) : numberFaults [.int m.ordinal] = [] := by
  cases m <;> rfl

theorem numbers_tagged (tag : String) (j : Json) : (tagged tag j).numbers = j.numbers :=
  List.append_nil _

/-- The order of members does not matter for the numbers they have together. -/
theorem numbers_byName (ms : List (String × Json)) :
    (Json.memberNumbers (byName ms)).Perm (Json.memberNumbers ms) := by
  rw [Json.memberNumbers_eq_flatMap, Json.memberNumbers_eq_flatMap]
  exact (reordered_byName ms).perm.flatMap_right _

mutual

theorem faults_tagValue : (v : Value) → {j : Json} → tagValue v = .ok j →
    (numberFaults j.numbers).Perm (wayFaults (valueVisits v))
  | .tuple items, _, h => by
    obtain ⟨js, hjs, h⟩ := bind_eq_ok.1 h
    obtain rfl := Except.ok.inj h
    rw [numbers_tagged]
    exact faults_tagValues items hjs
  | .list items, _, h => by
    obtain ⟨js, hjs, h⟩ := bind_eq_ok.1 h
    obtain rfl := Except.ok.inj h
    rw [numbers_tagged]
    exact faults_tagValues items hjs
  | .mapping entries, _, h => by
    rw [tagValue] at h
    split at h
    · exact nomatch h
    · obtain ⟨ms, hms, h⟩ := bind_eq_ok.1 h
      obtain rfl := Except.ok.inj h
      rw [numbers_tagged]
      exact ((numbers_byName ms).filterMap _).trans (faults_tagEntries entries hms)
  | .null, _, h | .bool _, _, h | .str _, _, h => by
    obtain rfl := Except.ok.inj h
    exact .refl _
  | .morphism m, _, h => by
    obtain rfl := Except.ok.inj h
    rw [numbers_tagged]
    exact .of_eq (numberFaults_ordinal m)
  | .int _, _, h | .float _, _, h => by
    obtain rfl := Except.ok.inj h
    exact .refl _

theorem faults_tagValues : (vs : List Value) → {js : List Json} → tagValues vs = .ok js →
    (numberFaults (Json.itemNumbers js)).Perm (wayFaults (valuesVisits vs))
  | [], _, h => by
    obtain rfl := Except.ok.inj h
    exact .refl _
  | v :: vs, _, h => by
    obtain ⟨j, hj, h⟩ := bind_eq_ok.1 h
    obtain ⟨js, hjs, h⟩ := bind_eq_ok.1 h
    obtain rfl := Except.ok.inj h
    rw [Json.itemNumbers, numberFaults_append, valuesVisits, wayFaults_append]
    exact (faults_tagValue v hj).append (faults_tagValues vs hjs)

theorem faults_tagEntries : (es : List (Value × Value)) → {ms : List (String × Json)} →
    tagEntries es = .ok ms →
    (numberFaults (Json.memberNumbers ms)).Perm (wayFaults (entriesVisits es))
  | [], _, h => by
    obtain rfl := Except.ok.inj h
    exact .refl _
  | (_, v) :: es, _, h => by
    obtain _ | ⟨⟨-, hj⟩, hes⟩ := tagEntries_eq_ok_iff.1 h
    rw [Json.memberNumbers, numberFaults_append, entriesVisits, wayFaults_append]
    exact (faults_tagValue v hj).append (faults_tagEntries es (tagEntries_eq_ok_iff.2 hes))

end

mutual

theorem faults_tagStep : (v : Value) → {j : Json} → tagStep v = .ok j →
    (numberFaults j.numbers).Perm (wayFaults (stepVisits v))
  | .morphism m, _, h => by
    obtain rfl := Except.ok.inj h
    rw [numbers_tagged]
    exact .of_eq (numberFaults_ordinal m)
  | .int i, _, h => by
    rw [tagStep] at h
    split at h
    · rename_i m hm
      obtain rfl := Except.ok.inj h
      rw [numbers_tagged]
      exact .of_eq (numberFaults_ordinal m)
    · exact nomatch h
  | .literal v, _, h => by
    obtain ⟨k, hk, rfl⟩ := map_eq_ok.1 (mapError_eq_ok.1 h)
    rw [numbers_tagged]
    exact faults_tagValue v hk
  | .sub steps, _, h => by
    obtain ⟨js, hjs, h⟩ := bind_eq_ok.1 h
    obtain rfl := Except.ok.inj h
    rw [numbers_tagged]
    exact faults_tagSteps steps hjs

/-- The numbers of a tagged derivation that cannot be written are those on the way. -/
theorem faults_tagSteps : (vs : List Value) → {js : List Json} → tagSteps vs = .ok js →
    (numberFaults (Json.itemNumbers js)).Perm (wayFaults (visits vs))
  | [], _, h => by
    obtain rfl := Except.ok.inj h
    exact .refl _
  | v :: vs, _, h => by
    obtain ⟨j, hj, h⟩ := bind_eq_ok.1 h
    obtain ⟨js, hjs, h⟩ := bind_eq_ok.1 h
    obtain rfl := Except.ok.inj h
    rw [Json.itemNumbers, numberFaults_append, visits, wayFaults_append]
    exact (faults_tagStep v hj).append (faults_tagSteps vs hjs)

end

/-- Why a tree cannot be written is why one of its numbers cannot. -/
theorem fault?_eq_head? (j : Json) : j.fault? = (numberFaults j.numbers).head? :=
  List.head?_filterMap.symm

/-! ## The hash -/

theorem canonicalJson_of_tags {d : Derivation} {js : List Json} (h : tagSteps d = .ok js) :
    d.canonicalJson =
      match (Json.arr js).fault? with
      | none => .ok (.arr js)
      | some f => .error (.fault f) := by
  rw [canonicalJson, h]
  rfl

/-- How a hash ends. If anything on the way is refused, the derivation is refused for
    what is refused first; otherwise if any number on the way cannot be written, for one
    that cannot; and otherwise there is a canonical text, and its digest is the hash. -/
theorem hash_outcome (d : Derivation) :
    match (visits d).findSome? Visit.refusal? with
    | some failure => d.hash = .error failure ∧ ∃ visit ∈ visits d, visit.Refuses failure
    | none =>
      if ∀ visit ∈ visits d, visit.fault? = none then
        ∃ text, d.canonicalText = .ok text ∧ d.hash = .ok (sha256 text)
      else ∃ visit ∈ visits d, ∃ fault, visit.fault? = some fault ∧
        d.hash = .error (.fault fault) := by
  have htags := failure?_tagSteps d
  rw [firstRefusal?] at htags
  cases hr : (visits d).findSome? Visit.refusal? with
  | some failure =>
    obtain ⟨visit, hmem, hv⟩ := List.exists_of_findSome?_eq_some hr
    have herror := failure?_eq_some.1 (htags.trans hr)
    refine ⟨?_, visit, hmem, Visit.refuses_of_refusal? hv⟩
    rw [hash, canonicalText, canonicalJson, herror]
    rfl
  | none =>
    obtain ⟨js, hjs⟩ := failure?_eq_none.1 (htags.trans hr)
    have hperm : (numberFaults (Json.arr js).numbers).Perm (wayFaults (visits d)) :=
      faults_tagSteps d hjs
    dsimp only
    split
    · rename_i hall
      have hnone : wayFaults (visits d) = [] := List.filterMap_eq_nil_iff.2 hall
      have hfault : (Json.arr js).fault? = none := by
        rw [hnone] at hperm
        rw [fault?_eq_head?, hperm.eq_nil]
        rfl
      have htext := canonicalText_eq_ok_iff.2 ⟨js, hjs, hfault, rfl⟩
      refine ⟨(Json.arr js).text, htext, ?_⟩
      rw [hash, htext]
      rfl
    · rename_i hsome
      cases hfault : (Json.arr js).fault? with
      | none =>
        rw [fault?_eq_head?, List.head?_eq_none_iff] at hfault
        rw [hfault] at hperm
        exact absurd (List.filterMap_eq_nil_iff.1 hperm.nil_eq.symm) hsome
      | some fault =>
        have hmem : fault ∈ numberFaults (Json.arr js).numbers := by
          rw [fault?_eq_head?] at hfault
          exact List.mem_of_mem_head? hfault
        obtain ⟨visit, hv, hvf⟩ := List.mem_filterMap.1 (hperm.mem_iff.1 hmem)
        refine ⟨visit, hv, fault, hvf, ?_⟩
        rw [hash, canonicalText, canonicalJson_of_tags hjs, hfault]
        rfl

/-- The keys of a mapping are looked at before its values, and both before the numbers
    of anything that comes earlier. -/
example :
    hash [.literal (.float .nan),
      .literal (.mapping [(.str "x", .bytes []), (.int 1, .null)]), .null] =
      .error (.fault (.literalKey "1")) := rfl

/-- An integer with too many digits is not hashed, although nothing is refused on the way
    and no floating-point number is there to be not finite. -/
theorem hash_of_huge :
    (visits [.literal .huge]).findSome? Visit.refusal? = none ∧
      (∀ x : Binary64, .value (.float x) ∉ visits [.literal .huge]) ∧
      hash [.literal .huge] = .error (.fault .tooManyDigits) := by
  have htags : tagSteps [.literal .huge] = .ok [tagged "lit" (.int (10 ^ maxDigits : Nat))] := rfl
  have hfault : (Json.arr [tagged "lit" (.int (10 ^ maxDigits : Nat))]).fault? =
      some .tooManyDigits := by
    have hnumber : Json.numberFault? (.int (10 ^ maxDigits : Nat)) = some .tooManyDigits := by
      rw [Json.numberFault?, not_hasDecimal_pow (Nat.le_refl _)]
      rfl
    rw [Json.fault?, Json.numbers, Json.itemNumbers, numbers_tagged, Json.numbers,
      List.singleton_append, List.findSome?_cons, hnumber]
  refine ⟨rfl, fun x hx => ?_, ?_⟩
  · rcases List.mem_cons.1 hx with h | h
    · cases h
    · cases List.mem_singleton.1 h
  · rw [hash, canonicalText, canonicalJson_of_tags htags, hfault]
    rfl

end Derivation

end Heptad
