import Heptad.Binary64.Layout
import Heptad.Binary64.Reader

/-!
# Numerals

What a finite number is written as, but for its sign: digits, then a point with
digits behind it or an exponent, or both.

* `Form`: the parts of a numeral, and `decimal?_form`: they are read;
* `isNumeral_signed`, `exists_mark`: which characters stand in it.
-/

namespace Heptad

variable {α : Type} {p : α → Bool} {body rest : List α}

/-! ## Runs of characters -/

/-- A run of characters of a kind is taken whole, if another kind follows. -/
theorem takeWhile_run (hbody : ∀ x ∈ body, p x) (hrest : ∀ x ∈ rest.head?, p x = false) :
    (body ++ rest).takeWhile p = body := by
  rw [List.takeWhile_append_of_pos hbody]
  cases rest with
  | nil => rw [List.takeWhile_nil, List.append_nil]
  | cons x rest => rw [List.takeWhile_cons_of_neg (by simp [hrest x rfl]), List.append_nil]

/-- What follows a run of characters of a kind is left. -/
theorem dropWhile_run (hbody : ∀ x ∈ body, p x) (hrest : ∀ x ∈ rest.head?, p x = false) :
    (body ++ rest).dropWhile p = rest := by
  rw [List.dropWhile_append_of_pos hbody]
  cases rest with
  | nil => rfl
  | cons x rest => exact List.dropWhile_cons_of_neg (by simp [hrest x rfl])

namespace Numeral

/-! ## Numerals and their parts -/

/-- The parts of a numeral. -/
structure Form where
  whole : List Char
  /-- What stands behind the point; without it there is no point either. -/
  fraction : List Char
  exponent : Option Int

namespace Form

/-- The point and what stands behind it. -/
def fractionPart (f : Form) : List Char := if f.fraction = [] then [] else '.' :: f.fraction

/-- The characters of a numeral. -/
def chars (f : Form) : List Char :=
  f.whole ++ (f.fractionPart ++ f.exponent.elim [] exponentPart)

/-- The characters of a numeral with a sign. -/
def signed (f : Form) (negative : Bool) : List Char :=
  if negative then '-' :: f.chars else f.chars

/-- The decimal a numeral stands for. -/
def decimal (f : Form) : Decimal :=
  ⟨Nat.ofDigitChars 10 (f.whole ++ f.fraction) 0, f.exponent.getD 0 - f.fraction.length⟩

/-- A numeral that is one of a floating-point number. -/
structure Proper (f : Form) : Prop where
  whole_ne_nil : f.whole ≠ []
  isDigit_whole : ∀ c ∈ f.whole, c.isDigit
  isDigit_fraction : ∀ c ∈ f.fraction, c.isDigit
  marked : f.fraction ≠ [] ∨ f.exponent.isSome

end Form

theorem isDigit_toDigits (n : Nat) : ∀ c ∈ Nat.toDigits 10 n, c.isDigit := fun _ hc =>
  Nat.isDigit_of_mem_toDigits (by decide) (by decide) hc

theorem ofDigits?_of_digits {cs : List Char} (hne : cs ≠ []) (hd : ∀ c ∈ cs, c.isDigit) :
    ofDigits? cs = some (Nat.ofDigitChars 10 cs 0) :=
  if_pos ⟨hne, List.all_eq_true.2 hd⟩

/-- An exponent part is a mark, a sign and the digits of the absolute value. -/
theorem exists_exponentPart (e : Int) : ∃ digits,
    exponentPart e = 'e' :: (if e < 0 then '-' else '+') :: digits ∧
      (∀ c ∈ digits, c.isDigit) ∧ ofDigits? digits = some e.natAbs := by
  have hd := isDigit_toDigits e.natAbs
  have hread : Nat.ofDigitChars 10 (Nat.toDigits 10 e.natAbs) 0 = e.natAbs :=
    Nat.ofDigitChars_ten_toDigits
  by_cases hl : (Nat.toDigits 10 e.natAbs).length < 2
  · have hd' : ∀ c ∈ '0' :: Nat.toDigits 10 e.natAbs, c.isDigit :=
      List.forall_mem_cons.2 ⟨rfl, hd⟩
    refine ⟨'0' :: Nat.toDigits 10 e.natAbs, by simp only [exponentPart, if_pos hl], hd', ?_⟩
    rw [ofDigits?_of_digits (List.cons_ne_nil _ _) hd', Nat.ofDigitChars_cons]
    exact congrArg some hread
  · refine ⟨Nat.toDigits 10 e.natAbs, by simp only [exponentPart, if_neg hl], hd, ?_⟩
    rw [ofDigits?_of_digits Nat.toDigits_ne_nil hd, hread]

/-- An exponent is read from its part. -/
theorem scale?_exponentPart (e : Int) : scale? (exponentPart e) = some e := by
  obtain ⟨digits, hdigits, -, hread⟩ := exists_exponentPart e
  rw [hdigits, scale?, if_pos (Or.inl rfl), exponent?]
  by_cases he : e < 0
  · rw [if_pos he, sign]
    simp only [hread, Option.bind_eq_bind, Option.bind_some, Option.pure_def, if_true]
    congr 1
    omega
  · rw [if_neg he, sign]
    simp only [hread, Option.bind_eq_bind, Option.bind_some, Option.pure_def, Bool.false_eq_true,
      if_false]
    congr 1
    omega

theorem scale?_exponent (e : Option Int) : scale? (e.elim [] exponentPart) = some (e.getD 0) := by
  cases e with
  | none => rfl
  | some e => exact scale?_exponentPart e

theorem not_isDigit_exponent (e : Option Int) :
    ∀ c ∈ (e.elim [] exponentPart).head?, c.isDigit = false := by
  cases e with
  | none => exact nofun
  | some e =>
    rintro c hc
    obtain rfl : 'e' = c := Option.some.inj hc
    rfl

/-- A numeral is read as the decimal it stands for. -/
theorem decimal?_form {f : Form} (hf : f.Proper) : decimal? f.chars = some f.decimal := by
  have hne : f.whole ++ f.fraction ≠ [] := List.append_ne_nil_of_left_ne_nil hf.whole_ne_nil _
  have hdigits : ∀ c ∈ f.whole ++ f.fraction, c.isDigit := fun c hc =>
    (List.mem_append.1 hc).elim (hf.isDigit_whole c) (hf.isDigit_fraction c)
  have hread := ofDigits?_of_digits hne hdigits
  by_cases hz : f.fraction = []
  · -- Without a point it is the mark of the exponent that ends the digits.
    obtain ⟨e, he⟩ := Option.isSome_iff_exists.1 (hf.marked.resolve_left fun h => h hz)
    obtain ⟨digits, hpart, -⟩ := exists_exponentPart e
    have hscale := scale?_exponentPart e
    have hchars : f.chars = f.whole ++ exponentPart e := by
      rw [Form.chars, Form.fractionPart, if_pos hz, he]
      rfl
    have hexp : ∀ c ∈ (exponentPart e).head?, c.isDigit = false := not_isDigit_exponent (some e)
    rw [hz, List.append_nil] at hread
    rw [hpart] at hchars hscale hexp
    simp only [decimal?, hchars, takeWhile_run hf.isDigit_whole hexp,
      dropWhile_run hf.isDigit_whole hexp]
    simp [hread, hscale, Form.decimal, hz, he]
  · have hexp := not_isDigit_exponent f.exponent
    have hchars : f.chars = f.whole ++ '.' :: (f.fraction ++ f.exponent.elim [] exponentPart) := by
      rw [Form.chars, Form.fractionPart, if_neg hz]
      rfl
    have hpoint : ∀ c ∈ ('.' :: (f.fraction ++ f.exponent.elim [] exponentPart)).head?,
        c.isDigit = false := by
      intro c hc
      obtain rfl : '.' = c := Option.some.inj hc
      rfl
    simp only [decimal?, hchars, takeWhile_run hf.isDigit_whole hpoint,
      dropWhile_run hf.isDigit_whole hpoint, takeWhile_run hf.isDigit_fraction hexp,
      dropWhile_run hf.isDigit_fraction hexp, hread, scale?_exponent]
    rfl

/-! ## Characters -/

variable {cs : List Char}

theorem dropWhile_blank (h : ∀ c ∈ cs, isBlank c = false) : cs.dropWhile isBlank = cs := by
  cases cs with
  | nil => rfl
  | cons c cs => exact List.dropWhile_cons_of_neg (by simp [h c List.mem_cons_self])

/-- A text without blanks has none around it. -/
theorem trim_of_not_blank (h : ∀ c ∈ cs, isBlank c = false) : trim cs = cs := by
  have hrev : ∀ c ∈ cs.reverse, isBlank c = false := fun c hc => h c (List.mem_reverse.1 hc)
  rw [trim, dropWhile_blank h, dropWhile_blank hrev, List.reverse_reverse]

theorem go_of_no_underscore (h : '_' ∉ cs) (before : Option Char) :
    join?.go before cs = some cs := by
  induction cs generalizing before with
  | nil => rfl
  | cons c cs ih =>
    have hc : c ≠ '_' := fun he => h (he ▸ List.mem_cons_self)
    have hcs : '_' ∉ cs := fun hm => h (List.mem_cons_of_mem c hm)
    rw [join?.go, ih hcs]
    · rfl
    · exact fun he => hc he

/-- A text without underscores is joined already. -/
theorem join?_of_no_underscore (h : '_' ∉ cs) : join? cs = some cs := go_of_no_underscore h none

/-- What begins with a digit has no sign. -/
theorem sign_of_digit {c : Char} (hc : c.isDigit) (cs : List Char) :
    sign (c :: cs) = (false, c :: cs) := by
  rw [sign]
  · intro rest h
    obtain rfl := (List.cons.inj h).1
    exact nomatch hc
  · intro rest h
    obtain rfl := (List.cons.inj h).1
    exact nomatch hc

/-- The characters of numerals. -/
def isNumeral (c : Char) : Bool :=
  c.isDigit || c = '+' || c = '-' || c = '.' || c = 'e' || c = 'E'

theorem isNumeral_of_isDigit {c : Char} (h : c.isDigit) : isNumeral c := by
  rw [isNumeral, h]
  rfl

theorem le_of_isDigit {c : Char} (h : c.isDigit) : '0' ≤ c ∧ c ≤ '9' := by
  rw [Char.isDigit, Bool.and_eq_true] at h
  exact ⟨of_decide_eq_true h.1, of_decide_eq_true h.2⟩

theorem not_isBlank_of_isNumeral {c : Char} (h : isNumeral c) : isBlank c = false := by
  simp only [isNumeral, Bool.or_eq_true, decide_eq_true_eq] at h
  rcases h with ((((h | rfl) | rfl) | rfl) | rfl) | rfl
  · have hlow := (le_of_isDigit h).1
    refine Bool.eq_false_iff.2 fun hb => ?_
    simp only [isBlank, Bool.or_eq_true, Bool.and_eq_true, decide_eq_true_eq] at hb
    rcases hb with rfl | ⟨-, hb⟩
    · exact absurd hlow (by decide)
    · exact absurd (Char.le_trans hlow hb) (by decide)
  all_goals rfl

theorem ne_underscore_of_isNumeral {c : Char} (h : isNumeral c) : c ≠ '_' := by
  rintro rfl
  exact absurd h (by decide)

theorem isNumeral_exponentPart (e : Int) : ∀ c ∈ exponentPart e, isNumeral c := by
  obtain ⟨digits, hpart, hd, -⟩ := exists_exponentPart e
  intro c hc
  rw [hpart] at hc
  rcases List.mem_cons.1 hc with rfl | hc
  · rfl
  rcases List.mem_cons.1 hc with rfl | hc
  · split <;> rfl
  · exact isNumeral_of_isDigit (hd c hc)

/-- The text of a numeral has no other characters. -/
theorem isNumeral_form {f : Form} (hf : f.Proper) : ∀ c ∈ f.chars, isNumeral c := by
  intro c hc
  rcases List.mem_append.1 hc with hc | hc
  · exact isNumeral_of_isDigit (hf.isDigit_whole c hc)
  rcases List.mem_append.1 hc with hc | hc
  · rw [Form.fractionPart] at hc
    split at hc
    · exact absurd hc List.not_mem_nil
    · rcases List.mem_cons.1 hc with rfl | hc
      · rfl
      · exact isNumeral_of_isDigit (hf.isDigit_fraction c hc)
  · cases he : f.exponent with
    | none =>
      rw [he] at hc
      exact absurd hc List.not_mem_nil
    | some e =>
      rw [he] at hc
      exact isNumeral_exponentPart e c hc

theorem isNumeral_signed {f : Form} (hf : f.Proper) (negative : Bool) :
    ∀ c ∈ f.signed negative, isNumeral c := by
  cases negative with
  | false => exact isNumeral_form hf
  | true => exact List.forall_mem_cons.2 ⟨rfl, isNumeral_form hf⟩

/-- The text of a numeral has a point or an exponent. -/
theorem exists_mark {f : Form} (hf : f.Proper) (negative : Bool) :
    ∃ c ∈ f.signed negative, c = '.' ∨ c = 'e' := by
  have hchars : ∃ c ∈ f.chars, c = '.' ∨ c = 'e' := by
    rcases hf.marked with h | h
    · refine ⟨'.', List.mem_append_right _ (List.mem_append_left _ ?_), .inl rfl⟩
      rw [Form.fractionPart, if_neg h]
      exact List.mem_cons_self
    · obtain ⟨e, he⟩ := Option.isSome_iff_exists.1 h
      refine ⟨'e', List.mem_append_right _ (List.mem_append_right _ ?_), .inr rfl⟩
      rw [he]
      exact List.mem_cons_self
  obtain ⟨c, hc, hmark⟩ := hchars
  refine ⟨c, ?_, hmark⟩
  cases negative with
  | false => exact hc
  | true => exact List.mem_cons_of_mem _ hc

/-- The text of a numeral begins with a digit. -/
theorem exists_digit {f : Form} (hf : f.Proper) :
    ∃ c cs, f.chars = c :: cs ∧ c.isDigit := by
  obtain ⟨c, whole, hw⟩ := List.exists_cons_of_ne_nil hf.whole_ne_nil
  exact ⟨c, _, by rw [Form.chars, hw]; rfl, hf.isDigit_whole c (hw ▸ List.mem_cons_self)⟩

/-- The sign of a numeral can be told from its text, as no numeral begins with one. -/
theorem sign_signed {f : Form} (hf : f.Proper) (negative : Bool) :
    sign (f.signed negative) = (negative, f.chars) := by
  cases negative with
  | false =>
    obtain ⟨c, cs, hcs, hc⟩ := exists_digit hf
    rw [Form.signed, if_neg Bool.false_ne_true, hcs]
    exact sign_of_digit hc cs
  | true => rfl

end Numeral

end Heptad
