import Heptad.Json.Basic
import Heptad.Proofs.Binary64.ReadBack

/-!
# Reading numbers of the interchange format

A numeral with a point or an exponent is read as a floating-point number and any
other as an integer. So the two kinds are told apart, and every number is read back
from its text.

* `number?_int`, `number?_float`: a number is read from its text;
* `number_of_numeral`: whatever follows it, unless it would go on the numeral.
-/

namespace Heptad

namespace Json

namespace Reader

/-- A reader takes something off the front, if it is there. -/
abbrev Reads (α : Type) : Type := List Char → Option (α × List Char)

/-- Whether a character makes a numeral one of a floating-point number. -/
def isMark (c : Char) : Bool := c = '.' || c = 'e' || c = 'E'

/-- The integer a numeral names. -/
def integer? (cs : List Char) : Option Int :=
  (Numeral.ofDigits? (Numeral.sign cs).2).map fun n => if (Numeral.sign cs).1 then -(n : Int) else n

/-- The number a numeral names. -/
def number? (cs : List Char) : Option Json :=
  if cs.any isMark then (Binary64.ofAscii? cs).map .float else (integer? cs).map .int

/-- A number off the front. -/
def number : Reads Json := fun cs =>
  (number? (cs.takeWhile Numeral.isNumeral)).map (·, cs.dropWhile Numeral.isNumeral)

/-! ## Numbers read back -/

/-- What can stand behind a tree: nothing that would go on a numeral. -/
def Ends (rest : List Char) : Prop := ∀ c ∈ rest.head?, Numeral.isNumeral c = false

theorem ends_cons {c : Char} (h : Numeral.isNumeral c = false) (rest : List Char) :
    Ends (c :: rest) := by
  intro x hx
  obtain rfl := Option.some.inj hx
  exact h

theorem number_of_numeral {cs rest : List Char} {j : Json}
    (hcs : ∀ c ∈ cs, Numeral.isNumeral c) (hrest : Ends rest) (h : number? cs = some j) :
    number (cs ++ rest) = some (j, rest) := by
  rw [number, takeWhile_run hcs hrest, dropWhile_run hcs hrest, h]
  rfl

theorem ne_nil_of_number? {cs : List Char} {j : Json} (h : number? cs = some j) : cs ≠ [] := by
  rintro rfl
  exact nomatch h

theorem ofDigits?_toDigits (n : Nat) : Numeral.ofDigits? (Nat.toDigits 10 n) = some n := by
  rw [Numeral.ofDigits?_of_digits Nat.toDigits_ne_nil (Numeral.isDigit_toDigits n),
    Nat.ofDigitChars_ten_toDigits]

theorem chars_ofNat (n : Nat) : (Json.int (.ofNat n)).chars = Nat.toDigits 10 n := by
  simp [Json.chars, toString, Int.repr]

theorem chars_negSucc (n : Nat) :
    (Json.int (.negSucc n)).chars = '-' :: Nat.toDigits 10 (n + 1) := by
  simp [Json.chars, toString, Int.repr]

/-- The digits of an integer are no marks. -/
theorem any_isMark_toDigits (n : Nat) : (Nat.toDigits 10 n).any isMark = false := by
  refine List.any_eq_false.2 fun c hc hmark => ?_
  have hd := Numeral.isDigit_toDigits n c hc
  simp only [isMark, Bool.or_eq_true, decide_eq_true_eq] at hmark
  rcases hmark with (rfl | rfl) | rfl <;> exact nomatch hd

theorem isNumeral_int (i : Int) : ∀ c ∈ (Json.int i).chars, Numeral.isNumeral c := by
  have hdigits (n : Nat) : ∀ c ∈ Nat.toDigits 10 n, Numeral.isNumeral c := fun c hc =>
    Numeral.isNumeral_of_isDigit (Numeral.isDigit_toDigits n c hc)
  cases i with
  | ofNat n =>
    rw [chars_ofNat]
    exact hdigits n
  | negSucc n =>
    rw [chars_negSucc]
    exact List.forall_mem_cons.2 ⟨rfl, hdigits _⟩

/-- An integer is read from its digits. -/
theorem number?_int (i : Int) : number? (Json.int i).chars = some (.int i) := by
  cases i with
  | ofNat n =>
    have hsign : Numeral.sign (Nat.toDigits 10 n) = (false, Nat.toDigits 10 n) := by
      obtain ⟨c, cs, hcs⟩ := List.exists_cons_of_ne_nil (Nat.toDigits_ne_nil (n := n) (b := 10))
      rw [hcs]
      exact Numeral.sign_of_digit (Numeral.isDigit_toDigits n c (hcs ▸ List.mem_cons_self)) cs
    rw [chars_ofNat, number?, any_isMark_toDigits, integer?, hsign, ofDigits?_toDigits]
    rfl
  | negSucc n =>
    have hmark : ('-' :: Nat.toDigits 10 (n + 1)).any isMark = false := any_isMark_toDigits (n + 1)
    rw [chars_negSucc, number?, hmark, integer?, Numeral.sign, ofDigits?_toDigits]
    rfl

theorem isNumeral_float {x : Binary64} (hx : x.isFinite) :
    ∀ c ∈ x.chars, Numeral.isNumeral c := by
  cases x with
  | nan | infinite => exact nomatch hx
  | finite negative m =>
    obtain ⟨f, hf, hchars, -⟩ := Binary64.exists_form negative m
    rw [hchars]
    exact Numeral.isNumeral_signed hf negative

/-- The text of a floating-point number has a mark. -/
theorem any_isMark_float {x : Binary64} (hx : x.isFinite) : x.chars.any isMark := by
  cases x with
  | nan | infinite => exact nomatch hx
  | finite negative m =>
    obtain ⟨f, hf, hchars, -⟩ := Binary64.exists_form negative m
    obtain ⟨c, hc, hmark⟩ := Numeral.exists_mark hf negative
    rw [hchars]
    exact List.any_eq_true.2 ⟨c, hc, by rcases hmark with rfl | rfl <;> rfl⟩

/-- A floating-point number is read from its text. -/
theorem number?_float {x : Binary64} (hx : x.isFinite) : number? x.chars = some (.float x) := by
  rw [number?, if_pos (any_isMark_float hx), Binary64.ofAscii?_chars hx]
  rfl

end Reader

end Json

end Heptad
