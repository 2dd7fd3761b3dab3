import Heptad.Proofs.Json.Reader

/-!
# The characters of the interchange format

Between the quotes of a text stands whatever its characters are escaped as; outside them
(`unquoted`) there are brackets, commas, colons, words and numerals only. Characters that
begin and end outside quotes and have no white space there (`Tight`) can be put one behind
the other.

* `tight_chars`: the characters of a tree with finite numbers are those of ASCII, and
  tight.
-/

namespace Heptad

namespace Json

/-! ## Outside quotes -/

/-- The characters that stand outside quotes, of what begins outside or within them. A
    character behind a backslash within quotes does not end them. -/
def unquoted : Bool → List Char → List Char
  | _, [] => []
  | false, '\x22' :: cs => unquoted true cs
  | false, c :: cs => c :: unquoted false cs
  | true, '\x5c' :: _ :: cs => unquoted true cs
  | true, '\x22' :: cs => unquoted false cs
  | true, _ :: cs => unquoted true cs

/-- Characters of ASCII that begin and end outside quotes, with no white space there. -/
structure Tight (cs : List Char) : Prop where
  ascii : ∀ c ∈ cs, c.toNat < 128
  exists_unquoted : ∃ bare : List Char, (∀ c ∈ bare, isBlank c = false) ∧
    ∀ rest, unquoted false (cs ++ rest) = bare ++ unquoted false rest

/-- Characters of ASCII that begin and end within the same quotes. -/
structure Within (cs : List Char) : Prop where
  ascii : ∀ c ∈ cs, c.toNat < 128
  unquoted : ∀ rest, Json.unquoted true (cs ++ rest) = Json.unquoted true rest

variable {c : Char} {cs ds : List Char}

theorem unquoted_cons (hq : c ≠ '\x22') (cs : List Char) :
    unquoted false (c :: cs) = c :: unquoted false cs := by
  rw [unquoted]
  exact hq

theorem unquoted_cons_within (hq : c ≠ '\x22') (hb : c ≠ '\x5c') (cs : List Char) :
    unquoted true (c :: cs) = unquoted true cs := by
  rw [unquoted]
  · exact fun _ _ h => absurd h hb
  · exact hq

theorem unquoted_escaped (x : Char) (cs : List Char) :
    unquoted true ('\x5c' :: x :: cs) = unquoted true cs := by
  rw [unquoted]

/-! ## Within quotes -/

namespace Within

theorem nil : Within [] := ⟨nofun, fun _ => rfl⟩

theorem append (hcs : Within cs) (hds : Within ds) : Within (cs ++ ds) where
  ascii := List.forall_mem_append.2 ⟨hcs.ascii, hds.ascii⟩
  unquoted rest := by rw [List.append_assoc, hcs.unquoted, hds.unquoted]

theorem flatMap {f : Char → List Char} (h : ∀ c, Within (f c)) (cs : List Char) :
    Within (cs.flatMap f) := by
  induction cs with
  | nil => exact nil
  | cons c cs ih => exact (h c).append ih

/-- A character that is neither a quote nor a backslash. -/
theorem singleton (hc : c.toNat < 128) (hq : c ≠ '\x22') (hb : c ≠ '\x5c') : Within [c] where
  ascii := List.forall_mem_singleton.2 hc
  unquoted rest := unquoted_cons_within hq hb rest

/-- A character behind a backslash. -/
theorem escaped {x : Char} (hx : x.toNat < 128) : Within ['\x5c', x] where
  ascii := List.forall_mem_cons.2 ⟨by decide, List.forall_mem_singleton.2 hx⟩
  unquoted rest := unquoted_escaped x rest

end Within

theorem digitChar_plain : ∀ d < 16, (Nat.digitChar d).toNat < 128 ∧
    Nat.digitChar d ≠ '\x22' ∧ Nat.digitChar d ≠ '\x5c' := by decide

theorem within_hex (width n : Nat) : Within (hex width n) := by
  induction width generalizing n with
  | zero => exact .nil
  | succ width ih =>
    obtain ⟨hascii, hq, hb⟩ := digitChar_plain (n % 16) (Nat.mod_lt n (by decide))
    exact (ih (n / 16)).append (.singleton hascii hq hb)

theorem within_unit (n : Nat) : Within (unit n) :=
  Within.append (.escaped (x := 'u') (by decide)) (within_hex 4 n)

/-- What a character is escaped as does not end the quotes. -/
theorem within_escape (c : Char) : Within (escape c) := by
  rw [escape]
  split
  · rename_i h
    rcases h with rfl | rfl <;> exact .escaped (by decide)
  split
  · exact .escaped (by decide)
  split
  · exact .escaped (by decide)
  split
  · exact .escaped (by decide)
  split
  · exact .escaped (by decide)
  split
  · exact .escaped (by decide)
  rename_i hquote _ _ _ _ _
  split
  · rename_i hascii
    have hle : c.toNat ≤ '~'.toNat := UInt32.le_iff_toNat_le.1 hascii.2
    exact .singleton (Nat.lt_of_le_of_lt hle (by decide)) (fun h => hquote (.inl h))
      fun h => hquote (.inr h)
  split
  · exact within_unit _
  · exact (within_unit _).append (within_unit _)

/-! ## Tight characters -/

/-- Whether a character stands for itself outside quotes and is no white space. -/
def isBare (c : Char) : Bool := c.toNat < 128 && !isBlank c && c ≠ '\x22'

theorem isBare_iff : isBare c ↔ c.toNat < 128 ∧ isBlank c = false ∧ c ≠ '\x22' := by
  simp only [isBare, Bool.and_eq_true, decide_eq_true_eq, Bool.not_eq_true', and_assoc]

namespace Tight

theorem nil : Tight [] := ⟨nofun, [], nofun, fun _ => rfl⟩

theorem append (hcs : Tight cs) (hds : Tight ds) : Tight (cs ++ ds) := by
  obtain ⟨bare, hbare, hrest⟩ := hcs.exists_unquoted
  obtain ⟨bare', hbare', hrest'⟩ := hds.exists_unquoted
  refine ⟨List.forall_mem_append.2 ⟨hcs.ascii, hds.ascii⟩, bare ++ bare',
    List.forall_mem_append.2 ⟨hbare, hbare'⟩, fun rest => ?_⟩
  rw [List.append_assoc, hrest, hrest', List.append_assoc]

theorem cons (hc : isBare c) (hcs : Tight cs) : Tight (c :: cs) := by
  obtain ⟨hascii, hblank, hquote⟩ := isBare_iff.1 hc
  obtain ⟨bare, hbare, hrest⟩ := hcs.exists_unquoted
  refine ⟨List.forall_mem_cons.2 ⟨hascii, hcs.ascii⟩, c :: bare,
    List.forall_mem_cons.2 ⟨hblank, hbare⟩, fun rest => ?_⟩
  rw [List.cons_append, unquoted_cons hquote, hrest, List.cons_append]

theorem of_bare (h : ∀ c ∈ cs, isBare c) : Tight cs := by
  induction cs with
  | nil => exact nil
  | cons c cs ih =>
    obtain ⟨hc, hcs⟩ := List.forall_mem_cons.1 h
    exact (ih hcs).cons hc

/-- There is no white space outside quotes. -/
theorem unquoted (h : Tight cs) : ∀ c ∈ Json.unquoted false cs, isBlank c = false := by
  obtain ⟨bare, hbare, hrest⟩ := h.exists_unquoted
  have := hrest []
  rw [List.append_nil, Json.unquoted, List.append_nil] at this
  rwa [this]

end Tight

/-- A text between quotes. -/
theorem tight_string (s : String) : Tight (string s) := by
  have hin := Within.flatMap within_escape s.toList
  refine ⟨List.forall_mem_cons.2 ⟨by decide, ?_⟩, [], nofun, fun rest => ?_⟩
  · exact List.forall_mem_append.2 ⟨hin.ascii, List.forall_mem_singleton.2 (by decide)⟩
  · rw [string, List.cons_append, List.cons_append, List.append_assoc, unquoted, hin.unquoted,
      List.singleton_append, unquoted]
    rfl

/-- Numerals have no white space and no quotes. -/
theorem isBare_of_isNumeral (h : Numeral.isNumeral c) : isBare c := by
  have hblank := Numeral.not_isBlank_of_isNumeral h
  simp only [Numeral.isNumeral, Bool.or_eq_true, decide_eq_true_eq] at h
  rcases h with ((((h | rfl) | rfl) | rfl) | rfl) | rfl
  · have hle : c.toNat ≤ '9'.toNat := UInt32.le_iff_toNat_le.1 (Numeral.le_of_isDigit h).2
    refine isBare_iff.2 ⟨Nat.lt_of_le_of_lt hle (by decide), hblank, ?_⟩
    rintro rfl
    cases h
  all_goals rfl

theorem tight_commas {ps : List (List Char)} (h : ∀ p ∈ ps, Tight p) : Tight (commas ps) := by
  induction ps with
  | nil => exact .nil
  | cons p ps ih =>
    obtain ⟨hp, hps⟩ := List.forall_mem_cons.1 h
    cases ps with
    | nil => exact hp
    | cons q qs =>
      rw [commas]
      · exact hp.append ((ih hps).cons rfl)
      · exact List.cons_ne_nil q qs

theorem tight_enclosed {left right : Char} {ps : List (List Char)} (hleft : isBare left)
    (hright : isBare right) (h : ∀ p ∈ ps, Tight p) : Tight (left :: commas ps ++ [right]) :=
  ((tight_commas h).cons hleft).append (Tight.nil.cons hright)

mutual

/-- The characters of a tree with finite numbers are tight. -/
theorem tight_chars : (j : Json) → j.isFinite → Tight j.chars
  | .null, _ => .of_bare (List.all_eq_true.1 rfl)
  | .bool true, _ => .of_bare (List.all_eq_true.1 rfl)
  | .bool false, _ => .of_bare (List.all_eq_true.1 rfl)
  | .int i, _ => .of_bare fun c hc => isBare_of_isNumeral (Reader.isNumeral_int i c hc)
  | .float x, h => by
    rw [isFinite_float] at h
    exact .of_bare fun c hc => isBare_of_isNumeral (Reader.isNumeral_float h c hc)
  | .str s, _ => tight_string s
  | .arr js, h => tight_enclosed rfl rfl (tight_itemChars js (isFinite_arr.1 h))
  | .obj ms, h => tight_enclosed rfl rfl (tight_memberChars ms (isFinite_obj.1 h))

theorem tight_itemChars : (js : List Json) → (∀ j ∈ js, j.isFinite) → ∀ p ∈ itemChars js, Tight p
  | [], _ => nofun
  | j :: js, h =>
    have ⟨hj, hjs⟩ := List.forall_mem_cons.1 h
    List.forall_mem_cons.2 ⟨tight_chars j hj, tight_itemChars js hjs⟩

theorem tight_memberChars : (ms : List (String × Json)) → (∀ m ∈ ms, m.2.isFinite) →
    ∀ p ∈ memberChars ms, Tight p
  | [], _ => nofun
  | (name, j) :: ms, h => by
    obtain ⟨hj, hms⟩ := List.forall_mem_cons.1 h
    have hmember := (tight_string name).append ((tight_chars j hj).cons (c := ':') rfl)
    exact List.forall_mem_cons.2 ⟨hmember, tight_memberChars ms hms⟩

end

end Json

end Heptad
