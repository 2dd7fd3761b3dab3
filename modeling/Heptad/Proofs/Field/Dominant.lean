import Mathlib.Order.Bounds.Defs
import Heptad.Proofs.Field.Evaluation
import Heptad.Proofs.Value.Number

/-!
# The dominant morphism

The dominant morphism is found in two passes: the greatest weight is determined
from left to right, and then the first weight that equals it is looked for. As
what is not a number compares with nothing, it is passed over by both, unless it
comes first and is taken for the greatest.

* `greatest_of_counts`: what the first pass finds, with its place;
* `FirstGreatest`, `firstGreatest?_of_counts`: no number is greater than the one
  that is found, and all numbers before it are less;
* `dominant?_isLeast`: hence its morphism is the least of those of a greatest number;
* `Field.dominant?_cases`: the dominant morphism of a field in terms of its weights;
* `Field.Numeric`, `Field.State.numeric_run`: all weights are numbers, and stay
  so whatever morphisms come in.
-/

namespace Heptad

namespace Value

/-! ## The greatest -/

/-- What is greatest among some numbers, given the greatest so far. -/
structure IsGreatest (best : Number) (ns : List Number) (g : Number) : Prop where
  /-- What is not a number stays the greatest, and is never taken for it later on. -/
  isNan_iff : g.IsNan ↔ best.IsNan
  not_lt : ∀ n ∈ best :: ns, g.lt n = false

variable {best g : Number} {ns : List Number}

theorem isGreatest_nil (best : Number) : IsGreatest best [] best :=
  ⟨Iff.rfl, fun _ h => List.mem_singleton.1 h ▸ best.lt_irrefl⟩

/-- A greater number takes the place of the greatest one. -/
theorem IsGreatest.of_lt {n : Number} (h : IsGreatest n ns g) (hlt : best.lt n = true) :
    IsGreatest best (n :: ns) g := by
  have hbest : ¬ best.IsNan := by
    intro hnan
    rw [Number.lt_of_isNan hnan] at hlt
    cases hlt
  have hn : ¬ n.IsNan := by
    intro hnan
    obtain ⟨_, _, -, hn, -⟩ := Number.lt_eq_true_iff.1 hlt
    rw [Number.IsNan, hn] at hnan
    cases hnan
  refine ⟨h.isNan_iff.trans (iff_of_false hn hbest), List.forall_mem_cons.2 ⟨?_, h.not_lt⟩⟩
  -- What is less than the greatest of the rest is not greater than it.
  rw [Bool.eq_false_iff]
  intro hgb
  have hgn := h.not_lt n List.mem_cons_self
  rw [Number.lt_trans hgb hlt] at hgn
  cases hgn

/-- A number that is not greater than the best so far is passed over. -/
theorem IsGreatest.of_not_lt {n : Number} (h : IsGreatest best ns g) (hlt : best.lt n = false) :
    IsGreatest best (n :: ns) g := by
  have hgb := h.not_lt best List.mem_cons_self
  refine ⟨h.isNan_iff, List.forall_mem_cons.2 ⟨hgb, List.forall_mem_cons.2 ⟨?_, ?_⟩⟩⟩
  · rw [Bool.eq_false_iff]
    intro hgn
    by_cases hg : g.IsNan
    · rw [Number.lt_of_isNan hg] at hgn
      cases hgn
    · -- The greatest so far is less than the greatest, or equals it, and so is less than `n`.
      cases heq : best.eq g with
      | true => rw [(Number.lt_congr heq n).1, hgn] at hlt; cases hlt
      | false =>
        have hbg := Number.lt_of_not_lt (mt h.isNan_iff.2 hg) hg hgb heq
        rw [Number.lt_trans hbg hgn] at hlt
        cases hlt
  · exact fun m hm => h.not_lt m (List.mem_cons_of_mem _ hm)

/-- The first pass finds the greatest of some numbers and where it stands among all. -/
theorem greatest_of_counts {v : Value} {vs : List Value} {all : List Number} {place next : Nat}
    (hv : v.number? = some best) (hcounts : Counts vs ns) (hplace : all[place]? = some best)
    (hnext : all.drop next = ns) :
    ∃ w g p, greatest v place next vs = .ok (w, p) ∧ w.number? = some g ∧
      IsGreatest best ns g ∧ all[p]? = some g := by
  induction hcounts generalizing v best place next with
  | nil => exact ⟨v, best, place, rfl, hv, isGreatest_nil best, hplace⟩
  | @cons w n vs ns hw _ ih =>
    have hn : all[next]? = some n := by
      rw [← List.head?_drop, hnext]
      rfl
    have hrest : all.drop (next + 1) = ns := by
      rw [← List.tail_drop, hnext]
      rfl
    rw [greatest, gt?_of_number? hw hv]
    cases hlt : best.lt n with
    | true =>
      obtain ⟨x, g, p, hp, hx, hg, hall⟩ := ih hw hn hrest
      exact ⟨x, g, p, hp, hx, hg.of_lt hlt, hall⟩
    | false =>
      obtain ⟨x, g, p, hp, hx, hg, hall⟩ := ih hv hplace hrest
      exact ⟨x, g, p, hp, hx, hg.of_not_lt hlt, hall⟩

/-! ## The first of the greatest -/

/-- The first place of a greatest number: no number is greater, and all before it
    are less. -/
structure FirstGreatest (ns : List Number) (i : Nat) : Prop where
  lt_length : i < ns.length
  number : ¬ ns[i].IsNan
  not_lt : ∀ n ∈ ns, ns[i].lt n = false
  before : ∀ (j : Nat) (h : j < i), ¬ ns[j].IsNan → ns[j].lt ns[i] = true

/-- A value equals itself if it counts as one of the numbers. -/
theorem equalsItself_of_number? {v : Value} {n : Number} (h : v.number? = some n) :
    v.equalsItself = true ↔ ¬ n.IsNan := by
  cases v with
  | float x =>
    cases h
    rw [Number.isNan_float]
    cases x with
    | nan => exact iff_of_false nofun fun h => h rfl
    | infinite | finite => exact iff_of_true rfl nofun
  | bool | int | morphism =>
    cases h
    exact iff_of_true rfl nofun
  | null | str | bytes | list | tuple | mapping | literal | sub | noRule | reentrant => cases h

/-- The second pass looks for a value that equals the greatest; that one itself is
    looked at by its place. -/
theorem firstGreatest?_of_greatest {v best : Value} {vs : List Value} {place : Nat}
    (h : greatest v 0 1 vs = .ok (best, place)) :
    firstGreatest? (v :: vs) = .ok ((v :: vs).zipIdx.findIdx? fun (w, i) =>
      w.eq best || (i = place && best.equalsItself)) := by
  rw [firstGreatest?, h]
  rfl

/-- Where the greatest stands the value equals it as well, so that the second pass
    looks for a number that equals it. -/
theorem findIdx?_of_counts {vs : List Value} {all : List Number} {v : Value} {g : Number}
    {place : Nat} (hcounts : Counts vs all) (hv : v.number? = some g) (h : all[place]? = some g) :
    (vs.zipIdx.findIdx? fun (w, i) => w.eq v || (i = place && v.equalsItself)) =
      all.findIdx? fun n => n.eq g := by
  have hpred (i : Nat) (hi : i < vs.length) (hi' : i < all.length) :
      (vs[i].eq v || (i = place && v.equalsItself)) = all[i].eq g := by
    have hi'' : vs[i].number? = some all[i] := hcounts.get hi hi'
    rw [eq_of_number? hi'' hv]
    by_cases hplace : i = place ∧ ¬ g.IsNan
    · obtain ⟨rfl, hnan⟩ := hplace
      rw [List.getElem?_eq_getElem hi', Option.some.injEq] at h
      rw [h, Number.eq_self hnan, Bool.true_or]
    · have hfalse : (i = place && v.equalsItself) = false := by
        rw [Bool.eq_false_iff, Ne, Bool.and_eq_true, decide_eq_true_iff,
          equalsItself_of_number? hv]
        exact hplace
      rw [hfalse, Bool.or_false]
  have htests : (vs.zipIdx.map fun (w, i) => w.eq v || (i = place && v.equalsItself)) =
      all.map fun n => n.eq g := by
    refine List.ext_getElem (by simp [hcounts.length_eq]) fun i hi hi' => ?_
    rw [List.length_map, List.length_zipIdx] at hi
    rw [List.length_map] at hi'
    simpa using hpred i hi hi'
  have hfound := congrArg (List.findIdx? id) htests
  rwa [List.findIdx?_map, List.findIdx?_map] at hfound

/-- The second pass finds it, unless what comes first is not a number. -/
theorem firstGreatest?_of_counts {vs : List Value} {n : Number} (h : Counts vs (n :: ns)) :
    (n.IsNan ∧ firstGreatest? vs = .ok none) ∨
      ¬ n.IsNan ∧ ∃ i, firstGreatest? vs = .ok (some i) ∧ FirstGreatest (n :: ns) i := by
  obtain ⟨v, vs, hv, hvs, rfl⟩ := List.forall₂_cons_right_iff.1 h
  obtain ⟨w, g, p, hp, hw, hg, hall⟩ := greatest_of_counts hv hvs
    (show (n :: ns)[0]? = some n from rfl) (show (n :: ns).drop 1 = ns from rfl)
  rw [firstGreatest?_of_greatest hp, findIdx?_of_counts h hw hall]
  cases hfound : (n :: ns).findIdx? fun m => m.eq g with
  | none =>
    refine .inl ⟨hg.isNan_iff.1 (Classical.byContradiction fun hnan => ?_), rfl⟩
    have hne := List.findIdx?_eq_none_iff.1 hfound g (List.mem_of_getElem? hall)
    rw [Number.eq_self hnan] at hne
    cases hne
  | some i =>
    obtain ⟨hi, heq, hbefore⟩ := List.findIdx?_eq_some_iff_getElem.1 hfound
    obtain ⟨hnumber, hg'⟩ := Number.not_isNan_of_eq heq
    refine .inr ⟨mt hg.isNan_iff.2 hg', i, rfl, ⟨hi, hnumber, ?_, ?_⟩⟩
    · intro m hm
      rw [(Number.lt_congr heq m).1]
      exact hg.not_lt m hm
    · intro j hj hnan
      rw [(Number.lt_congr heq _).2]
      refine Number.lt_of_not_lt hnan hg' (hg.not_lt _ (List.getElem_mem _)) ?_
      exact Bool.eq_false_iff.2 (hbefore j hj)

/-! ## The dominant morphism -/

/-- The weights of a value are taken for a field if they are one for each morphism. -/
theorem dominant?_of_items {v : Value} {items : List Value} (hl : v.length? = .ok Morphism.count)
    (hi : v.items? = .ok items) {found : Option Nat} (hf : firstGreatest? items = .ok found) :
    v.dominant? =
      match found.bind Morphism.ofOrdinal? with
      | some m => .ok m
      | none => .error .noMaximum := by
  rw [dominant?, hl, hi]
  show firstGreatest? items >>= _ = _
  rw [hf]
  rfl

/-- Of one number for each morphism the first of the greatest dominates, unless the
    first of all is none. -/
theorem dominant?_of_counts {vs : List Value} {n : Number} (hcounts : Counts vs (n :: ns))
    (h : vs.length = Morphism.count) :
    (n.IsNan ∧ (list vs).dominant? = .error .noMaximum) ∨
      ¬ n.IsNan ∧ ∃ m, (list vs).dominant? = .ok m ∧ FirstGreatest (n :: ns) m.ordinal := by
  have hl : (list vs).length? = .ok Morphism.count := congrArg Except.ok h
  rcases firstGreatest?_of_counts hcounts with ⟨hnan, hnone⟩ | ⟨hnumber, i, hsome, hi⟩
  · exact .inl ⟨hnan, dominant?_of_items hl rfl hnone⟩
  · have hlt : i < Morphism.all.length := by
      rw [Morphism.length_all, ← h, hcounts.length_eq]
      exact hi.lt_length
    have hm : Morphism.ofOrdinal? i = some Morphism.all[i] := List.getElem?_eq_getElem hlt
    refine .inr ⟨hnumber, Morphism.all[i], ?_, ?_⟩
    · rw [dominant?_of_items hl rfl hsome, Option.bind_some, hm]
    · rw [Morphism.ordinal_of_ofOrdinal? hm]
      exact hi

/-- The places of those numbers that are at least as great as each one. -/
def greatestPlaces (ns : List Number) : Set Nat :=
  {i | ∃ g, ns[i]? = some g ∧ ∀ n ∈ ns, ¬ n.IsNan → g.AtLeast n}

/-- The first place of a greatest number is the least of them. -/
theorem FirstGreatest.isLeast {i : Nat} (h : FirstGreatest ns i) :
    IsLeast (greatestPlaces ns) i := by
  have hi := h.lt_length
  constructor
  · refine ⟨ns[i], List.getElem?_eq_getElem hi, fun n hn hnan => ?_⟩
    exact Number.atLeast_of_not_lt h.number hnan (h.not_lt n hn)
  · rintro j ⟨g, hj, hg⟩
    obtain ⟨hlt, rfl⟩ := List.getElem?_eq_some_iff.1 hj
    have hge := hg ns[i] (List.getElem_mem hi) h.number
    refine Nat.not_lt.1 fun hji => ?_
    -- What comes before is less, and so not at least as great.
    have hless := h.before j hji hge.not_isNan
    rw [hge.not_lt] at hless
    cases hless

/-- The dominant morphism of a list of values that count as numbers, truth values and
    morphisms among them. There is none if they are not one for each morphism, or if the
    first is not a number. Otherwise it is the one of least ordinal whose number is at
    least as great as all that are numbers, whatever stands among them that is none. -/
theorem dominant?_isLeast {vs : List Value} {ns : List Number} (h : Counts vs ns) :
    (vs.length ≠ Morphism.count →
      (list vs).dominant? = .error (.fieldLength vs.length) ∧
        (Fault.fieldLength vs.length).kind = .value) ∧
    (vs.length = Morphism.count → ∃ first, ns[0]? = some first ∧
      (first.IsNan → (list vs).dominant? = .error .noMaximum ∧ Fault.noMaximum.kind = .value) ∧
      (¬ first.IsNan → ∃ m, (list vs).dominant? = .ok m ∧
        IsLeast (greatestPlaces ns) m.ordinal)) := by
  refine ⟨fun hl => ⟨?_, rfl⟩, fun hl => ?_⟩
  · rw [dominant?]
    exact if_pos hl
  · cases ns with
    | nil =>
      rw [List.forall₂_nil_right_iff.1 h] at hl
      cases hl
    | cons first ns =>
      refine ⟨first, rfl, fun hnan => ?_, fun hnumber => ?_⟩
      · rcases dominant?_of_counts h hl with ⟨-, hnone⟩ | ⟨hnumber, -⟩
        · exact ⟨hnone, rfl⟩
        · exact absurd hnan hnumber
      · rcases dominant?_of_counts h hl with ⟨hnan, -⟩ | ⟨-, m, hm, hfirst⟩
        · exact absurd hnan hnumber
        · exact ⟨m, hm, hfirst.isLeast⟩

/-- Among equal numbers of three types the first dominates, with what is no number before
    it; if this comes first, or there are two values only, none does. -/
theorem dominant?_isLeast_of_mixed :
    (∃ m, (list [int 0, float .nan, float .one, bool true, int 1, float (.infinite true),
        morphism .identity]).dominant? = .ok m ∧ m = .lambda ∧
      IsLeast (greatestPlaces [.int 0, .float .nan, .float .one, .int 1, .int 1,
        .float (.infinite true), .int 0]) m.ordinal) ∧
      (list [float .nan, int 1, int 0, int 0, int 0, int 0, int 0]).dominant? =
        .error .noMaximum ∧
      (list [int 0, float .one]).dominant? = .error (.fieldLength 2) := by
  refine ⟨?_, ?_, ?_⟩
  · have hcounts : Counts [int 0, float .nan, float .one, bool true, int 1,
          float (.infinite true), morphism .identity]
        [.int 0, .float .nan, .float .one, .int 1, .int 1, .float (.infinite true), .int 0] :=
      .cons rfl (.cons rfl (.cons rfl (.cons rfl (.cons rfl (.cons rfl (.cons rfl .nil))))))
    obtain ⟨first, hfirst, -, hfound⟩ := (dominant?_isLeast hcounts).2 rfl
    cases hfirst
    obtain ⟨m, hm, hleast⟩ := hfound nofun
    exact ⟨m, hm, Except.ok.inj (hm.symm.trans (by decide +kernel)), hleast⟩
  · have hcounts : Counts [float .nan, int 1, int 0, int 0, int 0, int 0, int 0]
        [.float .nan, .int 1, .int 0, .int 0, .int 0, .int 0, .int 0] :=
      .cons rfl (.cons rfl (.cons rfl (.cons rfl (.cons rfl (.cons rfl (.cons rfl .nil))))))
    obtain ⟨first, hfirst, hnone, -⟩ := (dominant?_isLeast hcounts).2 rfl
    cases hfirst
    exact (hnone rfl).1
  · have hcounts : Counts [int 0, float .one] [.int 0, .float .one] := .cons rfl (.cons rfl .nil)
    exact ((dominant?_isLeast hcounts).1 (by decide)).1

end Value

namespace Field

/-- The weight of a morphism as a number. -/
def number (f : Field) (m : Morphism) : Number := .float (f.weight m)

/-- A morphism dominates a field: no weight is greater than its own, and the weights
    of those before it are less, as far as they are numbers. -/
structure Dominates (f : Field) (m : Morphism) : Prop where
  number : ¬ (f.number m).IsNan
  not_lt : ∀ k, (f.number m).lt (f.number k) = false
  before : ∀ k, k.ordinal < m.ordinal → ¬ (f.number k).IsNan → (f.number k).lt (f.number m) = true

/-- The weights in the order of the morphisms. -/
def numbers (f : Field) : List Number := f.toList.map .float

theorem length_numbers (f : Field) : f.numbers.length = Morphism.count := by
  rw [numbers, List.length_map, Vector.length_toList]

theorem getElem_numbers (f : Field) (m : Morphism) {i : Nat} (hi : i < f.numbers.length)
    (h : i = m.ordinal) : f.numbers[i] = f.number m := by
  subst h
  rw [number, weight]
  exact (List.getElem_map _).trans (congrArg Number.float (Vector.getElem_toList _))

theorem counts_numbers (f : Field) : Value.Counts (f.toList.map .float) f.numbers := by
  rw [Value.Counts, numbers, List.forall₂_map_left_iff, List.forall₂_map_right_iff,
    List.forall₂_same]
  exact fun _ _ => rfl

/-- The first of the greatest weights is that of the morphism that dominates. -/
theorem dominates_of_firstGreatest {f : Field} {m : Morphism}
    (h : Value.FirstGreatest f.numbers m.ordinal) : f.Dominates m := by
  have hm := f.getElem_numbers m h.lt_length rfl
  have hlt (k : Morphism) : k.ordinal < f.numbers.length := f.length_numbers ▸ k.ordinal_lt
  refine ⟨hm ▸ h.number, fun k => ?_, fun k hk hnan => ?_⟩
  · rw [← hm, ← f.getElem_numbers k (hlt k) rfl]
    exact h.not_lt _ (List.getElem_mem _)
  · rw [← f.getElem_numbers k (hlt k) rfl] at hnan ⊢
    rw [← hm]
    exact h.before k.ordinal hk hnan

/-- What is found dominates the field, and something is unless the first weight is not a
    number. -/
theorem dominant?_cases (f : Field) :
    ((f.number .identity).IsNan ∧ f.dominant? = .error .noMaximum) ∨
      ¬ (f.number .identity).IsNan ∧ ∃ m, f.dominant? = .ok m ∧ f.Dominates m := by
  have hl : (f.toList.map Value.float).length = Morphism.count :=
    f.counts_numbers.length_eq.trans f.length_numbers
  have hfirst : f.numbers[0]? = some (f.number .identity) := by
    have hlt : 0 < f.numbers.length := f.length_numbers ▸ Nat.zero_lt_succ _
    rw [List.getElem?_eq_getElem hlt, f.getElem_numbers .identity hlt rfl]
  obtain ⟨ns, hns⟩ := List.head?_eq_some_iff.1 (List.head?_eq_getElem?.trans hfirst)
  have hcounts := f.counts_numbers
  rw [hns] at hcounts
  rcases Value.dominant?_of_counts hcounts hl with hnone | ⟨hnumber, m, hm, hfirst⟩
  · exact .inl hnone
  · exact .inr ⟨hnumber, m, hm, dominates_of_firstGreatest (hns ▸ hfirst)⟩

theorem dominates_of_dominant? {f : Field} {m : Morphism} (h : f.dominant? = .ok m) :
    f.Dominates m := by
  rcases f.dominant?_cases with ⟨-, hnone⟩ | ⟨-, k, hk, hdominates⟩
  · rw [hnone] at h
    cases h
  · rw [hk] at h
    cases h
    exact hdominates

theorem exists_dominant? {f : Field} (h : ¬ (f.number .identity).IsNan) :
    ∃ m, f.dominant? = .ok m ∧ f.Dominates m := by
  rcases f.dominant?_cases with ⟨hnan, -⟩ | ⟨-, hfound⟩
  · exact absurd hnan h
  · exact hfound

/-! ## Weights that are numbers -/

/-- All weights are numbers. -/
def Numeric (f : Field) : Prop := ∀ m, f.weight m ≠ .nan

theorem Numeric.exists_dominant? {f : Field} (h : f.Numeric) :
    ∃ m, f.dominant? = .ok m ∧ f.Dominates m :=
  Field.exists_dominant? fun hnan => h .identity (Number.isNan_float.1 hnan)

theorem numeric_oneHot (m : Morphism) : (oneHot m).Numeric := by
  intro k
  rw [weight_oneHot]
  split <;> exact nofun

theorem round_ne_nan (negative : Bool) (num den : Nat) :
    Binary64.round negative num den ≠ .nan := by
  unfold Binary64.round
  cases Magnitude.nearest? num den with
  | none => exact nofun
  | some m => exact nofun

/-- Only opposite infinities add up to what is not a number. -/
theorem add_finite_ne_nan {x : Binary64} (h : x ≠ .nan) (s : Bool) (m : Magnitude) :
    x.add (.finite s m) ≠ .nan := by
  cases x with
  | nan => exact absurd rfl h
  | infinite => exact nofun
  | finite =>
    rw [Binary64.add]
    split
    · exact nofun
    · exact round_ne_nan _ _ _

theorem Numeric.bump {f : Field} (h : f.Numeric) (m : Morphism) : (f.bump m).Numeric := by
  intro k
  rw [Field.bump]
  by_cases hk : k = m
  · rw [hk, weight_setWeight_self]
    exact add_finite_ne_nan (h m) false .one
  · rw [weight_setWeight_of_ne _ _ hk]
    exact h k

namespace State

variable {s : State}

/-- An incoming morphism leaves numbers, whether the field collapses or not. -/
theorem numeric_step (t : Table3) (h : s.field.Numeric) (m : Morphism) :
    (s.step t m).field.Numeric := by
  rw [step, fieldAfter]
  split
  · exact numeric_oneHot _
  · exact h.bump m

theorem numeric_run (t : Table3) (h : s.field.Numeric) (ms : List Morphism) :
    (s.run t ms).field.Numeric := by
  induction ms generalizing s with
  | nil => exact h
  | cons m ms ih => exact ih (numeric_step t h m)

end State

end Field

end Heptad
