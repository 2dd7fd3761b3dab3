import Heptad.Proofs.Binary64.Numeral
import Heptad.Proofs.Binary64.Shortest

/-!
# Texts that read back

The exact text of a finite number is a sign and a numeral. Which parts it has
depends on the size of the number, but the reader finds the written digits in each
case, perhaps with zeros behind them.

* `Digits.exists_form`: digits are written as a numeral of the same value;
* `Binary64.ofAscii?_chars`: every finite number is read back from its text.
-/

namespace Heptad

-- Powers of naturals are those of the core library, whatever else is imported.
attribute [local instance (high)] instPowNat

/-! ## Written digits -/

namespace Digits

variable {d : Digits}

/-- A number written out has its digits, perhaps with zeros around them. -/
theorem ofDigitChars_whole_fraction (d : Digits) :
    Nat.ofDigitChars 10 (d.whole ++ d.fraction) 0 =
      Nat.ofDigitChars 10 d.chars 0 * 10 ^ (d.point.toNat - d.chars.length) := by
  by_cases hp : d.point ≤ 0
  · have hz : d.point.toNat = 0 := Int.toNat_eq_zero.2 hp
    rw [whole, if_pos hp, fraction, hz, List.drop_zero, Nat.zero_sub, Nat.pow_zero, Nat.mul_one,
      List.singleton_append, Nat.ofDigitChars_cons, Nat.ofDigitChars_append,
      Nat.ofDigitChars_replicate_zero]
    rfl
  · have hz : (-d.point).toNat = 0 := by omega
    rw [whole, if_neg hp, fraction, hz, List.replicate_zero, List.nil_append, List.append_assoc]
    rcases Nat.lt_or_ge d.point.toNat d.chars.length with hl | hl
    · rw [Nat.sub_eq_zero_of_le hl.le, List.replicate_zero, List.nil_append,
        List.take_append_drop, Nat.pow_zero, Nat.mul_one]
    · rw [List.drop_of_length_le hl, List.take_of_length_le hl, List.append_nil,
        Nat.ofDigitChars_append, Nat.ofDigitChars_replicate_zero, Nat.mul_comm]

theorem length_fraction (d : Digits) :
    d.fraction.length = (-d.point).toNat + (d.chars.length - d.point.toNat) := by
  rw [fraction, List.length_append, List.length_replicate, List.length_drop]

theorem isDigit_replicate {n : Nat} {c : Char} (h : c ∈ List.replicate n '0') : c.isDigit := by
  rw [List.eq_of_mem_replicate h]
  rfl

theorem Proper.isDigit_whole (hd : d.Proper) : ∀ c ∈ d.whole, c.isDigit := by
  intro c hc
  rw [whole] at hc
  split at hc
  · rw [List.mem_singleton.1 hc]
    rfl
  · rcases List.mem_append.1 hc with hc | hc
    · exact hd.isDigit c (List.mem_of_mem_take hc)
    · exact isDigit_replicate hc

theorem Proper.isDigit_fraction (hd : d.Proper) : ∀ c ∈ d.fraction, c.isDigit := by
  intro c hc
  rcases List.mem_append.1 hc with hc | hc
  · exact isDigit_replicate hc
  · exact hd.isDigit c (List.mem_of_mem_drop hc)

theorem Proper.whole_ne_nil (hd : d.Proper) : d.whole ≠ [] := by
  rw [whole]
  split
  · exact List.cons_ne_nil _ _
  · refine List.append_ne_nil_of_left_ne_nil (fun h => ?_) _
    rcases List.take_eq_nil_iff.1 h with h | h
    · omega
    · exact hd.ne_nil h

open Numeral (Form)

/-- A number written out is a numeral without an exponent. -/
theorem exists_form_positional (hd : d.Proper) :
    ∃ f : Form, f.Proper ∧ d.positional .exact = f.chars ∧
      ∃ zeros, f.decimal = d.decimal.padded zeros := by
  have hval := d.ofDigitChars_whole_fraction
  have hlen := d.length_fraction
  by_cases hf : d.fraction = []
  · -- A whole number gets a zero behind the point.
    refine ⟨⟨d.whole, ['0'], none⟩, ⟨hd.whole_ne_nil, hd.isDigit_whole,
      List.forall_mem_singleton.2 rfl, .inl (List.cons_ne_nil _ _)⟩, ?_,
      d.point.toNat - d.chars.length + 1, ?_⟩
    · rw [positional, hf]
      rfl
    · rw [hf, List.append_nil] at hval
      rw [hf, List.length_nil] at hlen
      simp only [Form.decimal, Digits.decimal, Decimal.padded, Nat.ofDigitChars_append, hval]
      congr 1
      · rw [Nat.pow_succ, ← Nat.mul_assoc, Nat.mul_comm _ 10]
        rfl
      · simp only [Option.getD_none, List.length_singleton]
        omega
  · refine ⟨⟨d.whole, d.fraction, none⟩,
      ⟨hd.whole_ne_nil, hd.isDigit_whole, hd.isDigit_fraction, .inl hf⟩, ?_,
      d.point.toNat - d.chars.length, ?_⟩
    · simp only [Form.chars, Form.fractionPart, if_neg hf]
      rw [positional]
      split
      · rename_i h
        exact absurd h hf
      · exact (List.append_nil _).symm ▸ rfl
    · have hpos := List.length_pos_iff.2 hf
      simp only [Form.decimal, Digits.decimal, Decimal.padded, hval]
      congr 1
      simp only [Option.getD_none]
      omega

/-- A number in scientific form is a numeral with one digit before the point. -/
theorem exists_form_scientific (hd : d.Proper) :
    ∃ f : Form, f.Proper ∧ d.scientific = f.chars ∧
      ∃ zeros, f.decimal = d.decimal.padded zeros := by
  obtain ⟨chars, point⟩ := d
  cases chars with
  | nil => exact absurd rfl hd.ne_nil
  | cons c rest =>
    have hdigits := List.forall_mem_cons.1 hd.isDigit
    refine ⟨⟨[c], rest, some (point - 1)⟩, ⟨List.cons_ne_nil _ _, ?_, hdigits.2, .inr rfl⟩, ?_,
      0, ?_⟩
    · exact List.forall_mem_singleton.2 hdigits.1
    · cases rest <;> rfl
    · simp only [Form.decimal, Digits.decimal, Decimal.padded, List.singleton_append,
        Nat.pow_zero, Nat.mul_one, Option.getD_some, List.length_cons]
      congr 1
      omega

/-- Digits are written as a numeral of the same value. -/
theorem exists_form (hd : d.Proper) :
    ∃ f : Form, f.Proper ∧ d.write .exact = f.chars ∧
      ∃ zeros, f.decimal = d.decimal.padded zeros := by
  rw [write]
  split
  · exact exists_form_positional hd
  · exact exists_form_scientific hd

end Digits

/-! ## Numbers -/

namespace Binary64

open Numeral

theorem toLower_of_isDigit {c : Char} (h : c.isDigit) : c.toLower = c :=
  dif_neg fun hc => absurd (Char.le_trans (show 'A' ≤ c from hc.1) (le_of_isDigit h).2) (by decide)

/-- What begins with a digit is no word. -/
theorem ofUnsigned?_of_digit {c : Char} (hc : c.isDigit) (cs : List Char) (negative : Bool) :
    ofUnsigned? negative (c :: cs) =
      (decimal? (c :: cs)).map (Binary64.ofDecimal negative) := by
  have hword {s : String} (hs : s.toList.head?.any Char.isDigit = false) :
      String.ofList ((c :: cs).map Char.toLower) ≠ s := by
    rintro rfl
    rw [String.toList_ofList, List.map_cons, toLower_of_isDigit hc, List.head?_cons,
      Option.any_some, hc] at hs
    exact nomatch hs
  rw [ofUnsigned?, if_neg, if_neg]
  · exact hword rfl
  · rintro (h | h)
    · exact hword rfl h
    · exact hword rfl h

/-- A numeral is read with its sign. -/
theorem ofAscii?_signed {f : Form} (hf : f.Proper) (negative : Bool) :
    ofAscii? (f.signed negative) = some (Binary64.ofDecimal negative f.decimal) := by
  have hchars := isNumeral_signed hf negative
  have hread := decimal?_form hf
  rw [ofAscii?, trim_of_not_blank fun c hc => not_isBlank_of_isNumeral (hchars c hc),
    join?_of_no_underscore fun h => ne_underscore_of_isNumeral (hchars _ h) rfl]
  simp only [Option.bind_eq_bind, Option.bind_some, sign_signed hf negative]
  obtain ⟨c, cs, hcs, hc⟩ := exists_digit hf
  rw [hcs] at hread ⊢
  rw [ofUnsigned?_of_digit hc, hread]
  rfl

/-- The text of a finite number is that of a numeral with a sign. -/
theorem exists_form (negative : Bool) (m : Magnitude) :
    ∃ f : Form, f.Proper ∧ (finite negative m).chars = f.signed negative ∧
      Binary64.ofDecimal negative f.decimal = finite negative m := by
  obtain ⟨f, hf, hchars, zeros, hvalue⟩ := Digits.exists_form m.proper_shortest
  refine ⟨f, hf, ?_, ?_⟩
  · rw [Form.signed, ← hchars]
    cases negative <;> rfl
  · rw [Binary64.ofDecimal, hvalue, Magnitude.ofDecimal?_padded, Magnitude.ofDecimal?_shortest]

/-- A finite number is read back from its text. -/
theorem ofAscii?_chars {x : Binary64} (hx : x.isFinite) : ofAscii? x.chars = some x := by
  cases x with
  | nan | infinite => exact nomatch hx
  | finite negative m =>
    obtain ⟨f, hf, hchars, hvalue⟩ := exists_form negative m
    rw [hchars, ofAscii?_signed hf negative, hvalue]

end Binary64

end Heptad
