import Heptad.Proofs.Binary64.Nearest
import Heptad.Proofs.Number

/-!
# Adding one

Rounding goes to a nearest number, so it never passes over one: what is not below a
number is not rounded below it, and what is not above is not rounded above. For a sum
this means that a number with one added is never less than it was, although it can be
the same; and that the sum is exact if it is a number itself.

* `Magnitude.units_le_nearest?`, `Magnitude.exists_nearest?_le`: rounding passes over no
  magnitude;
* `Binary64.exists_extent?_add_one`, `Binary64.exists_extent?_addOnes`: adding one, or
  several ones, makes nothing less;
* `Binary64.extent?_addOnes`: if all sums on the way are numbers then nothing is rounded;
* `Binary64.Grows`: both of these in one;
* `Binary64.exists_extent?_whole`: the whole numbers of up to fifty-three binary digits,
  and the next one, are numbers.
-/

namespace Heptad

-- Powers of naturals are those of the core library, whatever else is imported.
attribute [local instance (high)] instPowNat

/-- A quotient of at least a whole number is not rounded below it. -/
theorem le_halfEven {num den q : Nat} (hd : 0 < den) (h : q * den ≤ num) :
    q ≤ halfEven num den := by
  have hq : q ≤ num / den := (Nat.le_div_iff_mul_le hd).2 h
  rw [halfEven]
  split
  · exact hq
  · exact Nat.le_succ_of_le hq

/-- A quotient of at most a whole number is not rounded above it. -/
theorem halfEven_le {num den q : Nat} (hd : 0 < den) (h : num ≤ q * den) :
    halfEven num den ≤ q := by
  have hdiv : num / den ≤ q := Nat.div_le_of_le_mul (Nat.mul_comm q den ▸ h)
  rw [halfEven]
  split
  · exact hdiv
  · rename_i hup
    -- Only a quotient that is not whole is rounded up.
    have hmod : num % den ≠ 0 := fun hz => hup (.inl (by omega))
    refine Nat.lt_of_le_of_ne hdiv fun heq => hmod ?_
    have hsum := Nat.div_add_mod num den
    rw [heq, Nat.mul_comm] at hsum
    omega

namespace Magnitude

/-- The shift a number of units is rounded with. -/
def shiftFor (num : Nat) : Nat := num.log2 - 52

theorem nearest?_one (num : Nat) :
    nearest? num 1 =
      if halfEven num (2 ^ shiftFor num) = 2 ^ (53 : Nat) then
        mk? (2 ^ (52 : Nat)) (shiftFor num + 1)
      else mk? (halfEven num (2 ^ shiftFor num)) (shiftFor num) := by
  simp only [nearest?, Nat.div_one, Nat.one_mul]
  rfl

theorem units_of_mk? {mant shift : Nat} {m : Magnitude} (h : mk? mant shift = some m) :
    m.units = mant * 2 ^ shift := by
  rw [mk?] at h
  split at h
  · cases h
    rfl
  · cases h

/-- A significand that is one digit too long stands for the next shift. -/
theorem two_pow_mul_two_pow_succ (shift : Nat) :
    2 ^ (52 : Nat) * 2 ^ (shift + 1) = 2 ^ (53 : Nat) * 2 ^ shift := by
  rw [← Nat.pow_add, ← Nat.pow_add]
  congr 1
  omega

/-- What a number of units is rounded to, in units. -/
theorem units_of_nearest? {num : Nat} {m : Magnitude} (h : nearest? num 1 = some m) :
    m.units = halfEven num (2 ^ shiftFor num) * 2 ^ shiftFor num := by
  rw [nearest?_one] at h
  split at h
  · rename_i hlong
    rw [units_of_mk? h, hlong, two_pow_mul_two_pow_succ]
  · exact units_of_mk? h

theorem two_pow_le_of_shiftFor {num : Nat} (h : shiftFor num ≠ 0) :
    2 ^ (52 : Nat) * 2 ^ shiftFor num ≤ num := by
  rw [shiftFor] at h ⊢
  have hnum : num ≠ 0 := by
    rintro rfl
    exact h rfl
  rw [← Nat.pow_add]
  exact (Nat.le_log2 hnum).1 (by omega)

theorem lt_two_pow_shiftFor (num : Nat) : num < 2 ^ (53 : Nat) * 2 ^ shiftFor num := by
  rw [shiftFor, ← Nat.pow_add]
  exact Nat.lt_of_lt_of_le Nat.lt_log2_self (Nat.pow_le_pow_right (by decide) (by omega))

theorem units_lt_two_pow (m : Magnitude) : m.units < 2 ^ (52 : Nat) * 2 ^ (m.shift + 1) := by
  rw [two_pow_mul_two_pow_succ]
  exact Nat.mul_lt_mul_of_pos_right m.mant_lt (Nat.two_pow_pos _)

/-- A magnitude with room for a significand of the full length has no smaller shift. -/
theorem le_shift_of_le_units {m : Magnitude} {shift : Nat}
    (h : 2 ^ (52 : Nat) * 2 ^ shift ≤ m.units) : shift ≤ m.shift := by
  have hlt := Nat.lt_of_mul_lt_mul_left (Nat.lt_of_le_of_lt h m.units_lt_two_pow)
  exact Nat.le_of_lt_succ ((Nat.pow_lt_pow_iff_right (by decide)).1 hlt)

/-- A magnitude of no smaller shift is a multiple of a power. -/
theorem units_of_shift_le {m : Magnitude} {shift : Nat} (h : shift ≤ m.shift) :
    m.units = m.mant * 2 ^ (m.shift - shift) * 2 ^ shift := by
  rw [Nat.mul_assoc, ← Nat.pow_add, Nat.sub_add_cancel h, units]

/-- What is no less than a magnitude is not rounded below it. -/
theorem units_le_nearest? {num : Nat} {m n : Magnitude} (h : m.units ≤ num)
    (hn : nearest? num 1 = some n) : m.units ≤ n.units := by
  have hpos : 0 < 2 ^ shiftFor num := Nat.two_pow_pos _
  rw [units_of_nearest? hn]
  rcases Nat.lt_or_ge m.shift (shiftFor num) with hlt | hle
  · -- The magnitude is less than the least one with this shift.
    have hnum := two_pow_le_of_shiftFor (Nat.ne_of_gt (Nat.zero_lt_of_lt hlt))
    calc m.units ≤ 2 ^ (52 : Nat) * 2 ^ (m.shift + 1) := Nat.le_of_lt m.units_lt_two_pow
      _ ≤ 2 ^ (52 : Nat) * 2 ^ shiftFor num :=
        Nat.mul_le_mul_left _ (Nat.pow_le_pow_right (by decide) hlt)
      _ ≤ _ := Nat.mul_le_mul_right _ (le_halfEven hpos hnum)
  · rw [units_of_shift_le hle] at h ⊢
    exact Nat.mul_le_mul_right _ (le_halfEven hpos h)

/-- What is no greater than a magnitude is rounded to one, and not above it. -/
theorem exists_nearest?_le {num : Nat} {m : Magnitude} (h : num ≤ m.units) :
    ∃ n, nearest? num 1 = some n ∧ n.units ≤ m.units := by
  have hpos : 0 < 2 ^ shiftFor num := Nat.two_pow_pos _
  have hshift : shiftFor num ≤ m.shift := by
    by_cases hz : shiftFor num = 0
    · exact hz ▸ Nat.zero_le _
    · exact le_shift_of_le_units (Nat.le_trans (two_pow_le_of_shiftFor hz) h)
  have hround : halfEven num (2 ^ shiftFor num) * 2 ^ shiftFor num ≤ m.units := by
    rw [units_of_shift_le hshift] at h ⊢
    exact Nat.mul_le_mul_right _ (halfEven_le hpos h)
  suffices ∃ n, nearest? num 1 = some n by
    obtain ⟨n, hn⟩ := this
    exact ⟨n, hn, units_of_nearest? hn ▸ hround⟩
  rw [nearest?_one]
  split
  · -- One digit too long, it is still within the magnitude, so that the shift can go up.
    rename_i hlong
    rw [hlong, ← two_pow_mul_two_pow_succ] at hround
    have hlt := le_shift_of_le_units hround
    exact ⟨_, dif_pos ⟨by decide, Nat.le_trans hlt m.shift_le, .inl (Nat.le_refl _)⟩⟩
  · rename_i hlong
    have hle : halfEven num (2 ^ shiftFor num) ≤ 2 ^ (53 : Nat) :=
      halfEven_le hpos (Nat.le_of_lt (lt_two_pow_shiftFor num))
    refine ⟨_, dif_pos ⟨Nat.lt_of_le_of_ne hle hlong, Nat.le_trans hshift m.shift_le, ?_⟩⟩
    by_cases hz : shiftFor num = 0
    · exact .inr hz
    · exact .inl (le_halfEven hpos (two_pow_le_of_shiftFor hz))

theorem units_one : one.units = scale := by decide +kernel

theorem mant_one_ne_zero : one.mant ≠ 0 := by decide

/-- A whole number of up to fifty-three binary digits is a magnitude. -/
theorem exists_units_of_lt {n : Nat} (hn : n < 2 ^ (53 : Nat)) :
    ∃ m : Magnitude, m.units = n * scale := by
  by_cases hz : n = 0
  · subst hz
    exact ⟨zero, (Nat.zero_mul _).trans (Nat.zero_mul _).symm⟩
  · have hlog : n.log2 ≤ 52 := Nat.le_of_lt_succ ((Nat.log2_lt hz).2 hn)
    have hlow : 2 ^ (52 : Nat) ≤ n * 2 ^ (52 - n.log2) := by
      have hpow : 2 ^ n.log2 * 2 ^ (52 - n.log2) = 2 ^ (52 : Nat) := by
        rw [← Nat.pow_add, Nat.add_sub_cancel' hlog]
      exact hpow ▸ Nat.mul_le_mul_right _ (Nat.log2_self_le hz)
    have hhigh : n * 2 ^ (52 - n.log2) < 2 ^ (53 : Nat) := by
      have hpow : 2 ^ (n.log2 + 1) * 2 ^ (52 - n.log2) = 2 ^ (53 : Nat) := by
        rw [← Nat.pow_add]
        congr 1
        omega
      exact hpow ▸ Nat.mul_lt_mul_of_pos_right Nat.lt_log2_self (Nat.two_pow_pos _)
    have hscale : n * 2 ^ (52 - n.log2) * 2 ^ (1022 + n.log2) = n * scale := by
      rw [Nat.mul_assoc, ← Nat.pow_add, scale]
      congr 2
      omega
    exact ⟨⟨_, 1022 + n.log2, hhigh, by omega, .inl hlow⟩, hscale⟩

/-- An integer up to the first one that has too many digits is that many units as well. -/
theorem exists_units_of_le {n : Nat} (hn : n ≤ 2 ^ (53 : Nat)) :
    ∃ m : Magnitude, m.units = n * scale := by
  rcases Nat.lt_or_eq_of_le hn with hlt | rfl
  · exact exists_units_of_lt hlt
  · -- It has one digit more, so that its shift is greater by one than that of the scale.
    obtain ⟨shift, hscale, hle⟩ : ∃ shift, scale = 2 ^ shift ∧ shift + 1 ≤ 2045 :=
      ⟨1074, rfl, by decide⟩
    refine ⟨⟨2 ^ (52 : Nat), shift + 1, by decide, hle, .inl (Nat.le_refl _)⟩, ?_⟩
    rw [units, hscale]
    exact two_pow_mul_two_pow_succ shift

end Magnitude

namespace Extent

theorem not_lt_units {u v : Int} : (units v).lt (units u) = false ↔ u ≤ v :=
  decide_eq_false_iff_not.trans Int.not_lt

variable {x y z : Extent}

/-- Places that are not before one another, one after the other. -/
theorem not_lt_trans (h : y.lt x = false) (h' : z.lt y = false) : z.lt x = false := by
  by_cases hne : x = y
  · rwa [hne]
  · rw [Bool.eq_false_iff]
    intro hlt
    rw [lt_trans hlt (lt_of_not_lt h hne)] at h'
    cases h'

end Extent

namespace Binary64

/-- The places of finite numbers. -/
theorem extent?_finite (s : Bool) (m : Magnitude) :
    (finite s m).extent? = some (.units (signedUnits s m)) := rfl

theorem eq_finite_of_extent? {x : Binary64} {u : Int} (h : x.extent? = some (.units u)) :
    ∃ s m, x = finite s m ∧ u = signedUnits s m := by
  cases x with
  | nan => cases h
  | infinite s => cases s <;> cases h
  | finite s m =>
    cases h
    exact ⟨s, m, rfl, rfl⟩

theorem signedUnits_false (m : Magnitude) : signedUnits false m = m.units := rfl

theorem signedUnits_true (m : Magnitude) : signedUnits true m = -m.units := rfl

/-- A finite number with one added is the rounded sum. -/
theorem finite_add_one (s : Bool) (m : Magnitude) :
    (finite s m).add .one = ofUnits (signedUnits s m + Magnitude.scale) := by
  have hone : ¬ (m.mant = 0 ∧ Magnitude.one.mant = 0) := fun h => Magnitude.mant_one_ne_zero h.2
  simp only [one, add, hone, signedUnits_false, Magnitude.units_one, if_false]

theorem natAbs_signedUnits (s : Bool) (m : Magnitude) : (signedUnits s m).natAbs = m.units := by
  cases s with
  | false => exact Int.natAbs_natCast _
  | true => exact (Int.natAbs_neg _).trans (Int.natAbs_natCast _)

theorem round_of_some {num den : Nat} {m : Magnitude} (h : Magnitude.nearest? num den = some m)
    (negative : Bool) : round negative num den = finite negative m := by
  unfold round
  rw [h]

theorem round_of_none {num den : Nat} (h : Magnitude.nearest? num den = none) (negative : Bool) :
    round negative num den = infinite negative := by
  unfold round
  rw [h]

/-- What is a number already is rounded to itself, up to the sign of zero. -/
theorem extent?_ofUnits_signedUnits (s : Bool) (m : Magnitude) :
    (ofUnits (signedUnits s m)).extent? = some (.units (signedUnits s m)) := by
  have habs := natAbs_signedUnits s m
  rw [ofUnits, habs, round_of_some m.nearest?_units, extent?_finite]
  by_cases hneg : signedUnits s m < 0
  · have hunits : signedUnits true m = signedUnits s m := by
      rw [signedUnits_true]
      omega
    rw [decide_eq_true hneg, hunits]
  · have hunits : signedUnits false m = signedUnits s m := by
      rw [signedUnits_false]
      omega
    rw [decide_eq_false hneg, hunits]

/-- Rounding up or down, a sum does not pass over a number it is no less than. -/
theorem exists_extent?_ofUnits {s : Bool} {m : Magnitude} {i : Int} (h : signedUnits s m ≤ i) :
    ∃ y, (ofUnits i).extent? = some y ∧ y.lt (.units (signedUnits s m)) = false := by
  have habs := natAbs_signedUnits s m
  rw [ofUnits]
  by_cases hneg : i < 0
  · -- Both are negative, so that the sum is the smaller one in units.
    have hle : i.natAbs ≤ m.units := by omega
    obtain ⟨n, hn, hunits⟩ := Magnitude.exists_nearest?_le hle
    refine ⟨.units (signedUnits true n), ?_, Extent.not_lt_units.2 ?_⟩
    · rw [round_of_some hn, decide_eq_true hneg, extent?_finite]
    · rw [signedUnits_true]
      omega
  · rw [decide_eq_false hneg]
    cases hn : Magnitude.nearest? i.natAbs 1 with
    | none => exact ⟨.above, by rw [round_of_none hn]; rfl, rfl⟩
    | some n =>
      refine ⟨.units (signedUnits false n), ?_, Extent.not_lt_units.2 ?_⟩
      · rw [round_of_some hn, extent?_finite]
      · rw [signedUnits_false]
        by_cases hpos : signedUnits s m ≤ 0
        · omega
        · have hle : m.units ≤ i.natAbs := by omega
          have := Magnitude.units_le_nearest? hle hn
          omega

/-- A number with one added is a number, and not less. -/
theorem exists_extent?_add_one {x : Binary64} {a : Extent} (h : x.extent? = some a) :
    ∃ b, (x.add .one).extent? = some b ∧ b.lt a = false := by
  cases x with
  | nan => cases h
  | infinite s => exact ⟨a, h, a.lt_irrefl⟩
  | finite s m =>
    cases h
    rw [finite_add_one]
    exact exists_extent?_ofUnits (by omega)

/-- A number with one added several times, rounded each time. -/
def addOnes (x : Binary64) : Nat → Binary64
  | 0 => x
  | n + 1 => (x.add .one).addOnes n

/-- A number with ones added is not less than it was, if it is ordered at all. -/
theorem exists_extent?_addOnes {x : Binary64} {a : Extent} (h : x.extent? = some a) (n : Nat) :
    ∃ b, (x.addOnes n).extent? = some b ∧ b.lt a = false := by
  induction n generalizing x a with
  | zero => exact ⟨a, h, a.lt_irrefl⟩
  | succ n ih =>
    obtain ⟨b, hb, hba⟩ := exists_extent?_add_one h
    obtain ⟨c, hc, hcb⟩ := ih hb
    exact ⟨c, hc, Extent.not_lt_trans hba hcb⟩

/-- If the sum with one is a number, then nothing is rounded. -/
theorem extent?_add_one {x y : Binary64} {u : Int} (h : x.extent? = some (.units u))
    (hy : y.extent? = some (.units (u + Magnitude.scale))) :
    (x.add .one).extent? = some (.units (u + Magnitude.scale)) := by
  obtain ⟨s, m, rfl, rfl⟩ := eq_finite_of_extent? h
  obtain ⟨t, n, -, hn⟩ := eq_finite_of_extent? hy
  rw [finite_add_one, hn]
  exact extent?_ofUnits_signedUnits t n

/-- If all the sums on the way are numbers, then the last one is exact. -/
theorem extent?_addOnes {x : Binary64} {u : Int} (h : x.extent? = some (.units u)) {n : Nat}
    (hsums : ∀ j ≤ n, ∃ y : Binary64, y.extent? = some (.units (u + j * Magnitude.scale))) :
    (x.addOnes n).extent? = some (.units (u + n * Magnitude.scale)) := by
  induction n generalizing x u with
  | zero => rw [addOnes, h, Int.natCast_zero, Int.zero_mul, Int.add_zero]
  | succ n ih =>
    have hnext (j : Nat) : u + (j + 1 : Nat) * (Magnitude.scale : Int) =
        u + Magnitude.scale + j * Magnitude.scale := by
      rw [Int.natCast_succ, Int.add_mul, Int.one_mul]
      omega
    obtain ⟨y, hy⟩ := hsums 1 (Nat.succ_le_succ (Nat.zero_le n))
    rw [Int.natCast_one, Int.one_mul] at hy
    rw [addOnes, hnext]
    refine ih (extent?_add_one h hy) fun j hj => ?_
    rw [← hnext]
    exact hsums (j + 1) (Nat.succ_le_succ hj)

/-- A number that another one has become with one added `n` times: it is not less, and
    greater by `n` as long as no sum on the way is rounded. -/
structure Grows (x y : Binary64) (n : Nat) : Prop where
  sum : y = x.addOnes n
  not_lt : ∀ a, x.extent? = some a → ∃ b, y.extent? = some b ∧ b.lt a = false
  exact : ∀ u : Int, x.extent? = some (.units u) →
    (∀ j ≤ n, ∃ z : Binary64, z.extent? = some (.units (u + j * Magnitude.scale))) →
    y.extent? = some (.units (u + n * Magnitude.scale))

theorem grows_addOnes (x : Binary64) (n : Nat) : x.Grows (x.addOnes n) n :=
  ⟨rfl, fun _ h => exists_extent?_addOnes h n, fun _ h hsums => extent?_addOnes h hsums⟩

/-- Whole numbers of up to fifty-three binary digits, and the next one, are numbers. -/
theorem exists_extent?_whole {i : Int} (hi : i.natAbs ≤ 2 ^ (53 : Nat)) :
    ∃ x : Binary64, x.extent? = some (.units (i * Magnitude.scale)) := by
  obtain ⟨m, hm⟩ := Magnitude.exists_units_of_le hi
  refine ⟨finite (i < 0) m, congrArg (fun u => some (Extent.units u)) ?_⟩
  rw [signedUnits, hm, Int.natCast_mul]
  split <;> rename_i hneg
  · rw [← Int.neg_mul, Int.ofNat_natAbs_of_nonpos (Int.le_of_lt (of_decide_eq_true hneg)),
      Int.neg_neg]
  · have hpos := Int.not_lt.1 (of_decide_eq_false (Bool.eq_false_iff.2 hneg))
    rw [Int.natAbs_of_nonneg hpos]

end Binary64

end Heptad
