import Mathlib.Data.List.TakeWhile
import Heptad.Binary64.Layout
import Heptad.Proofs.Binary64.Nearest

/-!
# Digits that read back

A decimal keeps its value when zeros are put behind its digits and its exponent
is lowered by as many. Writing a decimal takes such zeros away, and rounding one
to binary does not notice them:

* `Decimal.exists_padded_written`: what is written, with zeros put back, is the
  decimal;
* `ofDecimal?_padded`: zeros do not matter to rounding;
* `ofDecimal?_shortest`: the digits a magnitude is written with round to it.
-/

namespace Heptad

-- Powers of naturals are those of the core library, whatever else is imported.
attribute [local instance (high)] instPowNat

/-- Digits that can be written: at least one, and nothing else. -/
structure Digits.Proper (d : Digits) : Prop where
  ne_nil : d.chars ≠ []
  isDigit : ∀ c ∈ d.chars, c.isDigit

namespace Decimal

/-- A decimal with zeros put behind its digits. -/
def padded (d : Decimal) (zeros : Nat) : Decimal := ⟨d.digits * 10 ^ zeros, d.exponent - zeros⟩

end Decimal

/-! ## Zeros at the end -/

theorem digitCount_mul_pow {n : Nat} (hn : n ≠ 0) (zeros : Nat) :
    digitCount (n * 10 ^ zeros) = digitCount n + zeros := by
  induction zeros with
  | zero => rw [Nat.pow_zero, Nat.mul_one, Nat.add_zero]
  | succ zeros ih =>
    have hpos : 0 < n * 10 ^ zeros := Nat.mul_pos (Nat.pos_of_ne_zero hn) (Nat.pow_pos (by decide))
    have hlast := Nat.toDigits_append_toDigits (b := 10) (by decide) hpos (d := 0) (by decide)
    rw [Nat.pow_succ, ← Nat.mul_assoc, Nat.mul_comm _ 10, digitCount,
      ← Nat.add_zero (10 * _), ← hlast, List.length_append]
    exact congrArg (· + 1) ih

/-- Characters are those up to the last that is no zero, and zeros behind them. -/
theorem exists_zeros (cs : List Char) :
    ∃ zeros, cs = (cs.reverse.dropWhile (· = '0')).reverse ++ List.replicate zeros '0' := by
  refine ⟨(cs.reverse.takeWhile (· = '0')).length, ?_⟩
  have hzeros : cs.reverse.takeWhile (· = '0') =
      List.replicate (cs.reverse.takeWhile (· = '0')).length '0' := by
    refine List.eq_replicate_iff.2 ⟨rfl, fun c hc => ?_⟩
    have hzero := List.mem_takeWhile_imp hc
    exact of_decide_eq_true hzero
  -- Read backwards, the zeros at the end come first.
  rw [← List.reverse_replicate, ← hzeros, ← List.reverse_append, List.takeWhile_append_dropWhile,
    List.reverse_reverse]

namespace Decimal

/-- What is written are the digits without some zeros at the end. -/
theorem exists_zeros_written {d : Decimal} (hd : d.digits ≠ 0) :
    d.written.point = d.point ∧
      ∃ zeros, Nat.toDigits 10 d.digits = d.written.chars ++ List.replicate zeros '0' := by
  rw [written, if_neg hd]
  exact ⟨rfl, exists_zeros _⟩

/-- What is written are proper digits. -/
theorem proper_written (d : Decimal) : d.written.Proper := by
  by_cases hd : d.digits = 0
  · rw [written, if_pos hd]
    exact ⟨nofun, List.forall_mem_singleton.2 rfl⟩
  · obtain ⟨_, zeros, hz⟩ := exists_zeros_written hd
    refine ⟨fun h => hd ?_, fun c hc => ?_⟩
    · rw [← Nat.ofDigitChars_ten_toDigits (n := d.digits), hz, h, List.nil_append,
        Nat.ofDigitChars_replicate_zero, Nat.mul_zero]
    · have hmem : c ∈ Nat.toDigits 10 d.digits := hz ▸ List.mem_append_left _ hc
      exact Nat.isDigit_of_mem_toDigits (by decide) (by decide) hmem

/-- What is written, with zeros put back, is the decimal. -/
theorem exists_padded_written {d : Decimal} (hd : d.digits ≠ 0) :
    ∃ zeros, d.written.decimal.padded zeros = d := by
  obtain ⟨hpoint, zeros, hz⟩ := exists_zeros_written hd
  have hlen := congrArg List.length hz
  have hval := congrArg (Nat.ofDigitChars 10 · 0) hz
  simp only [List.length_append, List.length_replicate, Nat.ofDigitChars_append,
    Nat.ofDigitChars_replicate_zero, Nat.ofDigitChars_ten_toDigits] at hlen hval
  have hexp : d.written.point - d.written.chars.length - zeros = d.exponent := by
    rw [hpoint, point, digitCount, hlen]
    omega
  refine ⟨zeros, ?_⟩
  rw [Digits.decimal, padded, hexp, Nat.mul_comm, ← hval]

theorem point_padded {d : Decimal} (hd : d.digits ≠ 0) (zeros : Nat) :
    (d.padded zeros).point = d.point := by
  simp only [point, padded, digitCount_mul_pow hd]
  omega

/-- Zeros do not change the quotient by the unit. -/
theorem inUnits_padded (d : Decimal) (zeros : Nat) :
    (d.padded zeros).inUnits.1 * d.inUnits.2 = d.inUnits.1 * (d.padded zeros).inUnits.2 := by
  have hexp : 10 ^ zeros * 10 ^ (d.exponent - zeros).toNat * 10 ^ (-d.exponent).toNat =
      10 ^ d.exponent.toNat * 10 ^ (-(d.exponent - zeros)).toNat := by
    rw [← Nat.pow_add, ← Nat.pow_add, ← Nat.pow_add]
    congr 1
    omega
  simp only [inUnits, padded]
  generalize Magnitude.scale = unit
  calc d.digits * 10 ^ zeros * 10 ^ (d.exponent - zeros).toNat * unit * 10 ^ (-d.exponent).toNat
      = d.digits * unit *
          (10 ^ zeros * 10 ^ (d.exponent - zeros).toNat * 10 ^ (-d.exponent).toNat) := by ac_rfl
    _ = d.digits * 10 ^ d.exponent.toNat * unit * 10 ^ (-(d.exponent - zeros)).toNat := by
      rw [hexp]
      ac_rfl

theorem inUnits_pos (d : Decimal) : 0 < d.inUnits.2 := Nat.pow_pos (by decide)

end Decimal

namespace Magnitude

/-- Zeros behind the digits do not matter to rounding. -/
theorem ofDecimal?_padded (d : Decimal) (zeros : Nat) :
    ofDecimal? (d.padded zeros) = ofDecimal? d := by
  by_cases hd : d.digits = 0
  · have hz : (d.padded zeros).digits = 0 := by rw [Decimal.padded, hd, Nat.zero_mul]
    rw [ofDecimal?, if_pos (Or.inl hz), ofDecimal?, if_pos (Or.inl hd)]
  · have hz : (d.padded zeros).digits ≠ 0 :=
      Nat.mul_ne_zero hd (Nat.ne_of_gt (Nat.pow_pos (by decide)))
    simp only [ofDecimal?, Decimal.point_padded hd, hd, hz]
    rw [nearest?_congr (Decimal.inUnits_pos _) (Decimal.inUnits_pos d)
      (Decimal.inUnits_padded d zeros)]

/-- A decimal that was written and read is next to the same number. -/
theorem ofDecimal?_written (d : Decimal) : ofDecimal? d.written.decimal = ofDecimal? d := by
  by_cases hd : d.digits = 0
  · have hzero : d.written.decimal.digits = 0 := by
      rw [Decimal.written, if_pos hd]
      rfl
    rw [ofDecimal?, if_pos (Or.inl hzero), ofDecimal?, if_pos (Or.inl hd)]
  · obtain ⟨zeros, hz⟩ := Decimal.exists_padded_written hd
    rw [← ofDecimal?_padded _ zeros, hz]

/-! ## A magnitude written out in full -/

theorem units_pos {m : Magnitude} (hm : m.mant ≠ 0) : 0 < m.units :=
  Nat.mul_pos (Nat.pos_of_ne_zero hm) (Nat.two_pow_pos _)

theorem units_lt (m : Magnitude) {k : Nat} (hk : 2045 ≤ k) : m.units < 2 ^ (53 : Nat) * 2 ^ k :=
  Nat.mul_lt_mul_of_lt_of_le m.mant_lt
    (Nat.pow_le_pow_right Nat.two_pos (Nat.le_trans m.shift_le hk)) (Nat.two_pow_pos _)

theorem digitCount_le_iff {n k : Nat} (hk : 0 < k) : digitCount n ≤ k ↔ n < 10 ^ k :=
  Nat.length_toDigits_le_iff (by decide) hk

/-- Written out in full, a magnitude has at least 751 and at most 1383 digits. -/
theorem digitCount_exact {m : Magnitude} (hm : m.mant ≠ 0) :
    750 < digitCount (m.units * 5 ^ (1074 : Nat)) ∧
      digitCount (m.units * 5 ^ (1074 : Nat)) ≤ 1383 := by
  have hlow : 10 ^ (750 : Nat) ≤ 5 ^ (1074 : Nat) := by decide +kernel
  have hhigh : 2 ^ (53 : Nat) * 2 ^ (2045 : Nat) * 5 ^ (1074 : Nat) ≤ 10 ^ (1383 : Nat) := by
    decide +kernel
  have hfive : 0 < 5 ^ (1074 : Nat) := Nat.lt_of_lt_of_le (Nat.pow_pos (by decide)) hlow
  have hunits := m.units_lt (Nat.le_refl 2045)
  -- From here on only the bounds are needed, not the powers, which are too large to
  -- be computed again.
  generalize 5 ^ (1074 : Nat) = five at *
  generalize 2 ^ (53 : Nat) * 2 ^ (2045 : Nat) = top at *
  rw [← Nat.not_le, digitCount_le_iff (by decide), digitCount_le_iff (by decide), Nat.not_lt]
  constructor
  · exact Nat.le_trans hlow (Nat.le_mul_of_pos_left _ (units_pos hm))
  · exact Nat.lt_of_lt_of_le (Nat.mul_lt_mul_of_pos_right hunits hfive) hhigh

/-- Units multiplied by what makes a power of ten of the number of units in one. -/
theorem nearest?_mul_scale (m : Magnitude) {k ten : Nat} (h : k * scale = ten) (ht : 0 < ten) :
    nearest? (m.units * k * 10 ^ (0 : Nat) * scale) ten = some m := by
  rw [← nearest?_units m]
  refine nearest?_congr ht Nat.one_pos ?_
  rw [Nat.pow_zero, Nat.mul_one, Nat.mul_one, Nat.mul_assoc, h]

theorem ofDecimal?_exact {m : Magnitude} (hm : m.mant ≠ 0) :
    ofDecimal? m.exact.decimal = some m := by
  obtain ⟨hlow, hhigh⟩ := digitCount_exact hm
  have hscale : 5 ^ (1074 : Nat) * scale = 10 ^ (-(-1074 : Int)).toNat := by decide +kernel
  -- The zeros at the end that writing drops do not matter, so all digits are read.
  rw [exact, ofDecimal?_written]
  generalize 5 ^ (1074 : Nat) = five at *
  have hne : m.units * five ≠ 0 := fun h => by
    rw [h] at hlow
    exact absurd hlow (by decide)
  rw [ofDecimal?, if_neg, if_neg]
  · exact nearest?_mul_scale m hscale (Decimal.inUnits_pos _)
  · simp only [Decimal.point]
    omega
  · simp only [Decimal.point]
    omega

/-! ## The digits in use -/

/-- Digits that are found round to the magnitude, and they are those of a decimal. -/
theorem exists_written_of_withDigits {m : Magnitude} {n : Nat} {d : Digits}
    (h : m.withDigits? n = some d) : ∃ d', Decimal.written d' = d ∧ m.isReadFrom d = true := by
  simp only [withDigits?] at h
  split at h
  · rename_i hlower hupper
    split at h
    · obtain rfl := Option.some.inj h
      exact ⟨_, rfl, hlower⟩
    · obtain rfl := Option.some.inj h
      exact ⟨_, rfl, hupper⟩
  · rename_i hlower _
    obtain rfl := Option.some.inj h
    exact ⟨_, rfl, hlower⟩
  · rename_i _ hupper
    obtain rfl := Option.some.inj h
    exact ⟨_, rfl, hupper⟩
  · exact nomatch h

/-- The digits in use were found, or they are all there are. -/
theorem shortest_eq_exact_or {m : Magnitude} (hm : m.mant ≠ 0) :
    m.shortest = m.exact ∨ ∃ n, m.withDigits? n = some m.shortest := by
  rw [shortest, if_neg hm]
  cases h : (List.range 17).findSome? fun n => m.withDigits? (n + 1) with
  | none => exact .inl Option.getD_none
  | some d =>
    obtain ⟨n, _, hn⟩ := List.exists_of_findSome?_eq_some h
    exact .inr ⟨n + 1, hn⟩

/-- The digits a magnitude is written with round to it. -/
theorem ofDecimal?_shortest (m : Magnitude) : ofDecimal? m.shortest.decimal = some m := by
  by_cases hm : m.mant = 0
  · have hshift : m.shift = 0 := m.normal.resolve_left (by rw [hm]; decide)
    obtain ⟨mant, shift, _, _, _⟩ := m
    obtain rfl : mant = 0 := hm
    obtain rfl : shift = 0 := hshift
    rfl
  rcases shortest_eq_exact_or hm with h | ⟨n, hn⟩
  · rw [h]
    exact ofDecimal?_exact hm
  · obtain ⟨_, _, hread⟩ := exists_written_of_withDigits hn
    exact of_decide_eq_true hread

/-- The digits a magnitude is written with are proper. -/
theorem proper_shortest (m : Magnitude) : m.shortest.Proper := by
  by_cases hm : m.mant = 0
  · rw [shortest, if_pos hm]
    exact Decimal.proper_written ⟨0, 0⟩
  rcases shortest_eq_exact_or hm with h | ⟨n, hn⟩
  · rw [h, exact]
    exact Decimal.proper_written _
  · obtain ⟨d', hd', _⟩ := exists_written_of_withDigits hn
    rw [← hd']
    exact Decimal.proper_written d'

end Magnitude

end Heptad
