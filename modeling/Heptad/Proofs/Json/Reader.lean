import Heptad.Proofs.Json.Finite
import Heptad.Proofs.Json.Number
import Heptad.Proofs.Json.Text

/-!
# Reading the interchange format

A reader of trees without blanks, whose nesting is bounded by the number of
characters there are.

* `tree?_text`: the text of a tree with finite numbers is read as this tree;
* `text_injective`: so two such trees with the same text are the same tree.
-/

namespace Heptad

namespace Json

namespace Reader

/-! ## Words -/

/-- A word off the front. -/
def word : Reads Json
  | 'n' :: 'u' :: 'l' :: 'l' :: rest => some (.null, rest)
  | 't' :: 'r' :: 'u' :: 'e' :: rest => some (.bool true, rest)
  | 'f' :: 'a' :: 'l' :: 's' :: 'e' :: rest => some (.bool false, rest)
  | _ => none

/-! ## Containers -/

/-- Parts between commas up to a closing bracket, at most `n` of them. -/
def separated {α : Type} (close : Char) (part : Reads α) : Nat → Reads (List α)
  | 0, _ => none
  | n + 1, cs => do
    let (x, rest) ← part cs
    match rest with
    | [] => none
    | c :: rest =>
      if c = close then return ([x], rest)
      else if c = ',' then do
        let (xs, rest) ← separated close part n rest
        return (x :: xs, rest)
      else none

/-- The parts behind an opening bracket. -/
def bracketed {α : Type} (close : Char) (part : Reads α) : Reads (List α) := fun cs =>
  if cs.head? = some close then some ([], cs.tail) else separated close part cs.length cs

/-- A member off the front: a quoted name, a colon and a tree. -/
def member (tree : Reads Json) : Reads (String × Json)
  | '\x22' :: cs => do
    let (name, rest) ← text? cs
    match rest with
    | ':' :: rest => do
      let (j, rest) ← tree rest
      return ((name, j), rest)
    | _ => none
  | _ => none

/-- A tree off the front, nested in less than so many others. -/
def tree : Nat → Reads Json
  | 0, _ => none
  | _, [] => none
  | depth + 1, c :: cs =>
    if c = '\x22' then (text? cs).map fun (s, rest) => (.str s, rest)
    else if c = '[' then
      (bracketed ']' (tree depth) cs).map fun (items, rest) => (.arr items, rest)
    else if c = '\x7b' then
      (bracketed '\x7d' (member (tree depth)) cs).map fun (members, rest) => (.obj members, rest)
    else if Numeral.isNumeral c then number (c :: cs)
    else word (c :: cs)

/-- The tree a text holds. -/
def tree? (s : String) : Option Json :=
  match tree s.toList.length s.toList with
  | some (j, []) => some j
  | _ => none

/-! ## Containers read back -/

theorem length_le_commas {p : List Char} {ps : List (List Char)} (h : p ∈ ps) :
    p.length ≤ (commas ps).length := by
  induction ps with
  | nil => exact absurd h List.not_mem_nil
  | cons q qs ih =>
    cases qs with
    | nil =>
      rw [List.mem_singleton.1 h]
      exact Nat.le_refl _
    | cons r rs =>
      rw [commas, List.length_append, List.length_cons]
      · rcases List.mem_cons.1 h with rfl | h
        · exact Nat.le_add_right _ _
        · have := ih h
          omega
      · exact List.cons_ne_nil r rs

theorem length_le_length_commas {ps : List (List Char)} (h : ∀ p ∈ ps, p ≠ []) :
    ps.length ≤ (commas ps).length := by
  induction ps with
  | nil => exact Nat.le_refl _
  | cons p ps ih =>
    have hp := List.length_pos_iff.2 (h p List.mem_cons_self)
    cases ps with
    | nil => exact hp
    | cons q qs =>
      have := ih fun r hr => h r (List.mem_cons_of_mem p hr)
      rw [commas, List.length_append]
      · simp only [List.length_cons] at *
        omega
      · exact List.cons_ne_nil q qs

section Separated

variable {α : Type} {close : Char} {part : Reads α} {chars : α → List Char}

/-- Parts between commas are read one after the other. -/
theorem separated_commas (hclose : Numeral.isNumeral close = false) (hcomma : close ≠ ',')
    {xs : List α} (hne : xs ≠ [])
    (hparts : ∀ x ∈ xs, ∀ rest, Ends rest → part (chars x ++ rest) = some (x, rest))
    {n : Nat} (hn : xs.length ≤ n) (rest : List Char) :
    separated close part n (commas (xs.map chars) ++ close :: rest) = some (xs, rest) := by
  induction xs generalizing n with
  | nil => exact absurd rfl hne
  | cons x xs ih =>
    -- There is room for one more part as long as parts are left.
    obtain ⟨n, rfl⟩ : ∃ m, n = m + 1 := ⟨n - 1, by rw [List.length_cons] at hn; omega⟩
    have hx := hparts x List.mem_cons_self
    cases xs with
    | nil =>
      rw [List.map_singleton, commas, separated, hx _ (ends_cons hclose rest)]
      exact if_pos rfl
    | cons y ys =>
      have hrest := ih (List.cons_ne_nil y ys) (fun z hz => hparts z (List.mem_cons_of_mem x hz))
        (Nat.le_of_succ_le_succ hn)
      rw [List.map_cons, commas, List.append_assoc, List.cons_append, separated,
        hx _ (ends_cons rfl _)]
      · simp only [Option.bind_eq_bind, Option.bind_some]
        rw [if_neg hcomma.symm, hrest]
        rfl
      · exact List.cons_ne_nil _ _

variable (close part) in
/-- The parts behind an opening bracket are read up to the closing one. -/
theorem bracketed_commas (hclose : Numeral.isNumeral close = false) (hcomma : close ≠ ',')
    {xs : List α} (hhead : ∀ x ∈ xs, ∃ c cs, chars x = c :: cs ∧ c ≠ close)
    (hparts : ∀ x ∈ xs, ∀ rest, Ends rest → part (chars x ++ rest) = some (x, rest))
    (rest : List Char) :
    bracketed close part (commas (xs.map chars) ++ close :: rest) = some (xs, rest) := by
  by_cases hne : xs = []
  · subst hne
    exact if_pos rfl
  · -- No part is empty, so the characters are at least as many as the parts.
    have hlen : xs.length ≤ (commas (xs.map chars) ++ close :: rest).length := by
      have hne : ∀ p ∈ xs.map chars, p ≠ [] := fun p hp => by
        obtain ⟨x, hx, rfl⟩ := List.mem_map.1 hp
        obtain ⟨c, cs, hcs, -⟩ := hhead x hx
        rw [hcs]
        exact List.cons_ne_nil c cs
      have hle := length_le_length_commas hne
      rw [List.length_map] at hle
      rw [List.length_append]
      omega
    rw [bracketed, if_neg, separated_commas hclose hcomma hne hparts hlen]
    obtain ⟨x, ys, rfl⟩ := List.exists_cons_of_ne_nil hne
    obtain ⟨c, cs, hcs, hc⟩ := hhead x List.mem_cons_self
    rw [List.map_cons, hcs]
    cases ys <;> exact fun h => hc (Option.some.inj h)

end Separated

/-! ## Trees read back -/

theorem itemChars_eq_map (js : List Json) : itemChars js = js.map Json.chars := by
  induction js with
  | nil => rfl
  | cons j js ih => rw [itemChars, ih, List.map_cons]

/-- The characters of a member. -/
def charsOfMember (m : String × Json) : List Char := Json.string m.1 ++ ':' :: m.2.chars

theorem memberChars_eq_map (ms : List (String × Json)) :
    memberChars ms = ms.map charsOfMember := by
  induction ms with
  | nil => rfl
  | cons m ms ih => rw [memberChars, ih, List.map_cons, charsOfMember]

/-- With room for its nesting, a tree is read from its characters, and these do
    not look like the end of an array. -/
structure ReadsBack (j : Json) : Prop where
  head : ∃ c cs, j.chars = c :: cs ∧ c ≠ ']'
  tree : ∀ depth rest, j.chars.length ≤ depth + 1 → Ends rest →
    tree (depth + 1) (j.chars ++ rest) = some (j, rest)

theorem ReadsBack.tree_of_length_le {j : Json} (hj : ReadsBack j) {depth : Nat}
    (hd : j.chars.length ≤ depth) (rest : List Char) (hrest : Ends rest) :
    Reader.tree depth (j.chars ++ rest) = some (j, rest) := by
  obtain ⟨c, cs, hcs, -⟩ := hj.head
  cases depth with
  | zero =>
    rw [hcs] at hd
    exact absurd hd (Nat.not_succ_le_zero _)
  | succ depth => exact hj.tree depth rest hd hrest

theorem readsBack_word {j : Json} {c : Char} {cs : List Char} (hj : j.chars = c :: cs)
    (hc : c = 'n' ∨ c = 't' ∨ c = 'f') (hword : ∀ rest, word (j.chars ++ rest) = some (j, rest)) :
    ReadsBack j := by
  refine ⟨⟨c, cs, hj, by rcases hc with rfl | rfl | rfl <;> decide⟩, fun depth rest _ _ => ?_⟩
  rw [← hword rest, hj, List.cons_append, Reader.tree]
  rcases hc with rfl | rfl | rfl <;> rfl

theorem readsBack_numeral {j : Json} (hchars : ∀ c ∈ j.chars, Numeral.isNumeral c)
    (hread : number? j.chars = some j) : ReadsBack j := by
  obtain ⟨c, cs, hcs⟩ := List.exists_cons_of_ne_nil (ne_nil_of_number? hread)
  have hc : Numeral.isNumeral c := hchars c (hcs ▸ List.mem_cons_self)
  have hother {x : Char} (hx : Numeral.isNumeral x = false) : c ≠ x := by
    rintro rfl
    exact absurd hc (Bool.eq_false_iff.1 hx)
  refine ⟨⟨c, cs, hcs, hother rfl⟩, fun depth rest _ hrest => ?_⟩
  rw [← number_of_numeral hchars hrest hread, hcs, List.cons_append, Reader.tree,
    if_neg (hother rfl), if_neg (hother rfl), if_neg (hother rfl), if_pos hc]

theorem string_append (s : String) (rest : List Char) :
    Json.string s ++ rest = '\x22' :: (s.toList.flatMap escape ++ '\x22' :: rest) := by
  simp [Json.string]

theorem readsBack_str (s : String) : ReadsBack (.str s) := by
  refine ⟨⟨_, _, rfl, by decide⟩, fun depth rest _ _ => ?_⟩
  rw [Json.chars, string_append, Reader.tree, if_pos rfl, text?_string]
  rfl

theorem readsBack_arr {js : List Json} (hjs : ∀ j ∈ js, ReadsBack j) : ReadsBack (.arr js) := by
  refine ⟨⟨_, _, rfl, by decide⟩, fun depth rest hd _ => ?_⟩
  rw [Json.chars, itemChars_eq_map, List.cons_append] at hd ⊢
  rw [List.length_cons, List.length_append] at hd
  -- An item is shorter than the array, so there is room for its nesting.
  have hitem : ∀ j ∈ js, ∀ rest, Ends rest → tree depth (j.chars ++ rest) = some (j, rest) := by
    intro j hj rest hrest
    have hle := length_le_commas (List.mem_map_of_mem (f := Json.chars) hj)
    exact (hjs j hj).tree_of_length_le (by omega) rest hrest
  have hitems := bracketed_commas ']' (tree depth) rfl (by decide) (fun j hj => (hjs j hj).head)
    hitem rest
  rw [List.cons_append, List.append_assoc, List.singleton_append, Reader.tree,
    if_neg (by decide), if_pos rfl, hitems]
  rfl

theorem member_append {m : String × Json} {depth : Nat} (hm : ReadsBack m.2)
    (hd : (charsOfMember m).length ≤ depth) {rest : List Char} (hrest : Ends rest) :
    member (tree depth) (charsOfMember m ++ rest) = some (m, rest) := by
  rw [charsOfMember, List.length_append, List.length_cons] at hd
  have hlen : m.2.chars.length ≤ depth := by omega
  rw [charsOfMember, List.append_assoc, string_append, member, text?_string]
  simp only [Option.bind_eq_bind, Option.bind_some, List.cons_append,
    hm.tree_of_length_le hlen rest hrest]
  rfl

theorem readsBack_obj {ms : List (String × Json)} (hms : ∀ m ∈ ms, ReadsBack m.2) :
    ReadsBack (.obj ms) := by
  refine ⟨⟨_, _, rfl, by decide⟩, fun depth rest hd _ => ?_⟩
  rw [Json.chars, memberChars_eq_map, List.cons_append] at hd ⊢
  rw [List.length_cons, List.length_append] at hd
  have hhead : ∀ m ∈ ms, ∃ c cs, charsOfMember m = c :: cs ∧ c ≠ '\x7d' := fun m _ =>
    ⟨_, _, rfl, by decide⟩
  have hmember : ∀ m ∈ ms, ∀ rest, Ends rest →
      member (tree depth) (charsOfMember m ++ rest) = some (m, rest) := by
    intro m hm rest hrest
    have hle := length_le_commas (List.mem_map_of_mem (f := charsOfMember) hm)
    exact member_append (hms m hm) (by omega) hrest
  have hmembers := bracketed_commas '\x7d' (member (tree depth)) rfl (by decide) hhead hmember rest
  rw [List.cons_append, List.append_assoc, List.singleton_append, Reader.tree,
    if_neg (by decide), if_neg (by decide), if_pos rfl, hmembers]
  rfl

mutual

/-- A tree with finite numbers is read from its characters. -/
theorem readsBack : (j : Json) → j.isFinite → ReadsBack j
  | .null, _ => readsBack_word rfl (.inl rfl) fun _ => rfl
  | .bool true, _ => readsBack_word rfl (.inr (.inl rfl)) fun _ => rfl
  | .bool false, _ => readsBack_word rfl (.inr (.inr rfl)) fun _ => rfl
  | .int i, _ => readsBack_numeral (isNumeral_int i) (number?_int i)
  | .float x, h => by
    rw [isFinite_float] at h
    exact readsBack_numeral (isNumeral_float h) (number?_float h)
  | .str s, _ => readsBack_str s
  | .arr js, h => readsBack_arr (readsBack_items js (isFinite_arr.1 h))
  | .obj ms, h => readsBack_obj (readsBack_members ms (isFinite_obj.1 h))

theorem readsBack_items : (js : List Json) → (∀ j ∈ js, j.isFinite) → ∀ j ∈ js, ReadsBack j
  | [], _ => fun _ h => nomatch h
  | j :: js, h =>
    have ⟨hj, hjs⟩ := List.forall_mem_cons.1 h
    List.forall_mem_cons.2 ⟨readsBack j hj, readsBack_items js hjs⟩

theorem readsBack_members : (ms : List (String × Json)) → (∀ m ∈ ms, m.2.isFinite) →
    ∀ m ∈ ms, ReadsBack m.2
  | [], _ => fun _ h => nomatch h
  | (_, j) :: ms, h =>
    have ⟨hj, hms⟩ := List.forall_mem_cons.1 h
    List.forall_mem_cons.2 ⟨readsBack j hj, readsBack_members ms hms⟩

end

end Reader

/-- The text of a tree with finite numbers is read as this tree. -/
theorem tree?_text {j : Json} (h : j.isFinite) : Reader.tree? j.text = some j := by
  have hread := (Reader.readsBack j h).tree_of_length_le (Nat.le_refl _) [] nofun
  rw [List.append_nil] at hread
  rw [Reader.tree?, text, String.toList_ofList, hread]

/-- Trees with finite numbers and the same text are the same. -/
theorem text_injective {j k : Json} (hj : j.isFinite) (hk : k.isFinite) (h : j.text = k.text) :
    j = k := by
  have hread := tree?_text hj
  rw [h, tree?_text hk] at hread
  exact (Option.some.inj hread).symm

end Json

end Heptad
