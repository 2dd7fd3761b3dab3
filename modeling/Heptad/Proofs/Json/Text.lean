import Heptad.Json.Basic

/-!
# Reading texts of the interchange format

A text between quotes is read in two steps: its escapes are undone, which gives
UTF-16 code units, and the surrogates among these are put together in pairs. A
character that is not escaped counts as one unit however large its code is.

* `text?_string`: what is written for a text is read as this text, whatever
  follows it.
-/

namespace Heptad

-- Powers of naturals are those of the core library, whatever else is imported.
attribute [local instance (high)] instPowNat

/-- The codes of characters leave out those of surrogates. -/
theorem toNat_valid (c : Char) :
    c.toNat < 0xd800 ∨ 0xdfff < c.toNat ∧ c.toNat < 0x110000 := c.valid

namespace Json

namespace Reader

/-! ## Digits of base sixteen -/

/-- The value of a digit of base sixteen. -/
def hexDigit? (c : Char) : Option Nat :=
  if '0' ≤ c ∧ c ≤ '9' then some (c.toNat - 0x30)
  else if 'a' ≤ c ∧ c ≤ 'f' then some (c.toNat - 0x61 + 10)
  else if 'A' ≤ c ∧ c ≤ 'F' then some (c.toNat - 0x41 + 10)
  else none

/-- The number written by digits of base sixteen, behind those already read. -/
def hexValue? : Nat → List Char → Option Nat
  | n, [] => some n
  | n, c :: cs => do hexValue? (16 * n + (← hexDigit? c)) cs

theorem hexDigit?_digitChar : ∀ d < 16, hexDigit? (Nat.digitChar d) = some d := by decide

theorem hexValue?_append {n m : Nat} {cs : List Char} (h : hexValue? n cs = some m)
    (ds : List Char) : hexValue? n (cs ++ ds) = hexValue? m ds := by
  induction cs generalizing n with
  | nil =>
    obtain rfl := Option.some.inj h
    rfl
  | cons c cs ih =>
    obtain ⟨d, hd, h⟩ := Option.bind_eq_some_iff.1 h
    rw [List.cons_append, hexValue?, hd]
    exact ih h

/-- A number is read from its digits. -/
theorem hexValue?_hex {width n : Nat} (h : n < 16 ^ width) :
    hexValue? 0 (hex width n) = some n := by
  induction width generalizing n with
  | zero =>
    obtain rfl : n = 0 := Nat.lt_one_iff.1 h
    rfl
  | succ width ih =>
    have hn : n / 16 < 16 ^ width := Nat.div_lt_of_lt_mul (by rwa [← Nat.pow_succ'])
    rw [hex, hexValue?_append (ih hn), hexValue?, hexDigit?_digitChar _ (Nat.mod_lt n (by decide))]
    exact congrArg some (Nat.div_add_mod n 16)

/-! ## Escapes -/

/-- The code of a character that stands behind a backslash. -/
def short? (c : Char) : Option Nat :=
  if c = '\x22' ∨ c = '\x5c' ∨ c = '/' then some c.toNat
  else if c = 'n' then some 0x0a
  else if c = 'r' then some 0x0d
  else if c = 't' then some 0x09
  else if c = 'b' then some 0x08
  else if c = 'f' then some 0x0c
  else none

/-- The code units up to the closing quote, and what follows it. -/
def units : List Char → Option (List Nat × List Char)
  | [] => none
  | c :: rest =>
    if c = '\x22' then some ([], rest)
    else if c = '\x5c' then
      match rest with
      | 'u' :: x :: y :: z :: w :: rest => do
        let n ← hexValue? 0 [x, y, z, w]
        let (us, rest) ← units rest
        return (n :: us, rest)
      | x :: rest => do
        let n ← short? x
        let (us, rest) ← units rest
        return (n :: us, rest)
      | [] => none
    else do
      let (us, rest) ← units rest
      return (c.toNat :: us, rest)

/-- The characters of code units; surrogates have to come in pairs. -/
def joined : List Nat → Option (List Char)
  | [] => some []
  | u :: us =>
    if 0xd800 ≤ u ∧ u < 0xdc00 then
      match us with
      | v :: us =>
        if 0xdc00 ≤ v ∧ v < 0xe000 then
          (joined us).map (Char.ofNat (0x10000 + (u - 0xd800) * 0x400 + (v - 0xdc00)) :: ·)
        else none
      | [] => none
    else if 0xdc00 ≤ u ∧ u < 0xe000 then none
    else (joined us).map (Char.ofNat u :: ·)

/-- The text up to the closing quote, and what follows it. -/
def text? (cs : List Char) : Option (String × List Char) := do
  let (us, rest) ← units cs
  return (String.ofList (← joined us), rest)

/-! ## Texts read back -/

/-- The code units of a character. -/
def codeUnits (c : Char) : List Nat :=
  if c.toNat < 0x10000 then [c.toNat]
  else [0xd800 + (c.toNat - 0x10000) / 0x400, 0xdc00 + (c.toNat - 0x10000) % 0x400]

/-- Units put in front of those that were read. -/
def prepend (us : List Nat) (r : List Nat × List Char) : List Nat × List Char := (us ++ r.1, r.2)

theorem units_quote (rest : List Char) : units ('\x22' :: rest) = some ([], rest) := by
  rw [units.eq_def]
  exact if_pos rfl

/-- An escaped code unit is read as this unit. -/
theorem units_unit {n : Nat} (hn : n < 0x10000) (rest : List Char) :
    units (unit n ++ rest) = (units rest).map (prepend [n]) := by
  have hread : hexValue? 0 (hex 4 n) = some n := hexValue?_hex hn
  match h : hex 4 n, length_hex 4 n with
  | [x, y, z, w], _ =>
    rw [h] at hread
    rw [unit, h]
    simp only [List.cons_append, List.nil_append]
    rw [units, if_neg (by decide), if_pos rfl, hread]
    cases units rest <;> rfl

/-- A short escape is read as the character it stands for. -/
theorem units_short {x : Char} {n : Nat} (hx : x ≠ 'u') (hn : short? x = some n)
    (rest : List Char) : units ('\x5c' :: x :: rest) = (units rest).map (prepend [n]) := by
  rw [units, if_neg (by decide), if_pos rfl, hn]
  · cases units rest <;> rfl
  · exact fun _ _ _ _ _ h => absurd h hx

/-- Any other character is read as itself. -/
theorem units_plain {c : Char} (hq : c ≠ '\x22') (hb : c ≠ '\x5c') (rest : List Char) :
    units (c :: rest) = (units rest).map (prepend [c.toNat]) := by
  rw [units.eq_def]
  dsimp only
  rw [if_neg hq, if_neg hb]
  cases units rest <;> rfl

/-- A character is read as its code units. -/
theorem units_escape (c : Char) (rest : List Char) :
    units (escape c ++ rest) = (units rest).map (prepend (codeUnits c)) := by
  rw [escape]
  split
  · rename_i h
    rcases h with rfl | rfl <;> exact units_short (by decide) rfl rest
  split
  · subst c
    exact units_short (by decide) rfl rest
  split
  · subst c
    exact units_short (by decide) rfl rest
  split
  · subst c
    exact units_short (by decide) rfl rest
  split
  · subst c
    exact units_short (by decide) rfl rest
  split
  · subst c
    exact units_short (by decide) rfl rest
  rename_i hquote _ _ _ _ _
  -- What is left stands for itself, is one code unit, or a pair of surrogates.
  split
  · rename_i hascii
    have hle : c.toNat ≤ '~'.toNat := UInt32.le_iff_toNat_le.1 hascii.2
    have hsmall : c.toNat < 0x10000 := Nat.lt_of_le_of_lt hle (by decide)
    rw [codeUnits, if_pos hsmall]
    exact units_plain (fun h => hquote (.inl h)) (fun h => hquote (.inr h)) rest
  split
  · rename_i hsmall
    rw [codeUnits, if_pos hsmall]
    exact units_unit hsmall rest
  · rename_i hlarge
    have hmax := toNat_valid c
    rw [codeUnits, if_neg hlarge, List.append_assoc, units_unit (by omega), units_unit (by omega),
      Option.map_map]
    rfl

theorem units_string (cs rest : List Char) :
    units (cs.flatMap escape ++ '\x22' :: rest) = some (cs.flatMap codeUnits, rest) := by
  induction cs with
  | nil => rw [List.flatMap_nil, List.nil_append, units_quote, List.flatMap_nil]
  | cons c cs ih =>
    rw [List.flatMap_cons, List.append_assoc, units_escape, ih]
    rfl

theorem joined_codeUnits (c : Char) (us : List Nat) :
    joined (codeUnits c ++ us) = (joined us).map (c :: ·) := by
  have hvalid := toNat_valid c
  rw [codeUnits]
  split
  · rename_i hsmall
    rw [List.singleton_append, joined.eq_def]
    dsimp only
    rw [if_neg (by omega), if_neg (by omega), Char.ofNat_toNat]
  · rename_i hlarge
    rw [List.cons_append, List.singleton_append, joined, if_pos (by omega), if_pos (by omega)]
    -- The halves of the pair are put together as they were taken apart.
    have hcode : 0x10000 + (0xd800 + (c.toNat - 0x10000) / 0x400 - 0xd800) * 0x400 +
        (0xdc00 + (c.toNat - 0x10000) % 0x400 - 0xdc00) = c.toNat := by omega
    rw [hcode, Char.ofNat_toNat]

theorem joined_flatMap (cs : List Char) : joined (cs.flatMap codeUnits) = some cs := by
  induction cs with
  | nil => rfl
  | cons c cs ih => rw [List.flatMap_cons, joined_codeUnits, ih, Option.map_some]

/-- What is written for a text is read as this text. -/
theorem text?_string (s : String) (rest : List Char) :
    text? (s.toList.flatMap escape ++ '\x22' :: rest) = some (s, rest) := by
  rw [text?, units_string]
  simp only [Option.bind_eq_bind, Option.bind_some, joined_flatMap, String.ofList_toList]
  rfl

end Reader

end Json

end Heptad
