import Heptad.Reflex.Loop

/-!
# Entries of the agent's state

The state of an agent is a list of entries, in the order their keys were put in.
A key that is set keeps its place if it has one, and is appended otherwise.

* `Written`, `written_putAll`: what is written under some keys is found there,
  and all other entries stay as they are, in their order;
* `restShowable`, `isShowable_putAll`: whether the state can be shown once everything is
  written that a cycle writes;
* `keys_putAll`: all keys keep their places, and the new ones come behind;
* `putAll_of_prefix`, `putAll_single`: of several writings under the same keys only
  the last one counts.
-/

namespace Heptad

namespace Reflex

/-! ## Entries -/

/-- Only a text equals a text. -/
theorem eq_str_iff {v : Value} {key : String} : v.eq (.str key) = true ↔ v = .str key := by
  cases v with
  | str s => rw [Value.eq, decide_eq_true_iff, Value.str.injEq]
  | null | bool | int | float | bytes | list | tuple | mapping | morphism | literal | sub | noRule
  | reentrant => exact ⟨nofun, nofun⟩

/-- There are entries with a key, and they all have this value. -/
def Holds (entries : List (Value × Value)) (key : String) (v : Value) : Prop :=
  (∃ e ∈ entries, e.1 = .str key) ∧ ∀ e ∈ entries, e.1 = .str key → e.2 = v

section

variable {entries : List (Value × Value)} {key : String} {v : Value} {e : Value × Value}

/-- After a key is set, what is not under it was there before. -/
theorem mem_put (h : e ∈ put entries key v) :
    (e ∈ entries ∧ e.1 ≠ .str key) ∨ (e.1 = .str key ∧ e.2 = v) := by
  rw [put] at h
  split at h
  · obtain ⟨e', he', rfl⟩ := List.mem_map.1 h
    split
    · rename_i hkey
      exact .inr ⟨eq_str_iff.1 hkey, rfl⟩
    · rename_i hkey
      exact .inl ⟨he', fun h => hkey (eq_str_iff.2 h)⟩
  · rename_i hany
    rcases List.mem_append.1 h with h | h
    · exact .inl ⟨h, fun hkey => hany (List.any_eq_true.2 ⟨e, h, eq_str_iff.2 hkey⟩)⟩
    · cases List.mem_singleton.1 h
      exact .inr ⟨rfl, rfl⟩

/-- After a key is set there is an entry under it. -/
theorem exists_mem_put (entries : List (Value × Value)) (key : String) (v : Value) :
    ∃ e ∈ put entries key v, e.1 = .str key := by
  rw [put]
  split
  · rename_i hany
    obtain ⟨e, he, hkey⟩ := List.any_eq_true.1 hany
    exact ⟨_, List.mem_map_of_mem he, by rw [if_pos hkey]; exact eq_str_iff.1 hkey⟩
  · exact ⟨_, List.mem_append_right _ (List.mem_singleton_self _), rfl⟩

/-- What was there under another key is still there once a value is put in. -/
theorem mem_put_of_ne (h : e ∈ entries) (hkey : e.1 ≠ .str key) : e ∈ put entries key v := by
  rw [put]
  split
  · refine List.mem_map.2 ⟨e, h, if_neg fun heq => hkey (eq_str_iff.1 heq)⟩
  · exact List.mem_append_left _ h

/-- What is not under the key keeps its order. -/
theorem filter_put {p : Value × Value → Bool} (hp : ∀ e, e.1 = .str key → p e = false) :
    (put entries key v).filter p = entries.filter p := by
  rw [put]
  split
  · have hset : (p ∘ fun e => if e.1.eq (.str key) then (e.1, v) else e) = p := by
      funext e
      rw [Function.comp]
      split
      · rename_i hkey
        rw [hp e (eq_str_iff.1 hkey), hp (e.1, v) (eq_str_iff.1 hkey)]
      · rfl
    have hkept : ∀ e ∈ entries.filter p, (if e.1.eq (.str key) then (e.1, v) else e) = e := by
      intro e he
      refine if_neg fun hkey => ?_
      have hpe := (List.mem_filter.1 he).2
      rw [hp e (eq_str_iff.1 hkey)] at hpe
      cases hpe
    rw [List.filter_map, hset, List.map_congr_left hkept]
    exact List.map_id _
  · rw [List.filter_append, List.filter_cons_of_neg (by rw [hp _ rfl]; exact Bool.false_ne_true)]
    exact List.append_nil _

theorem holds_put (entries : List (Value × Value)) (key : String) (v : Value) :
    Holds (put entries key v) key v := by
  refine ⟨exists_mem_put entries key v, fun e he hkey => ?_⟩
  rcases mem_put he with ⟨-, hne⟩ | ⟨-, hv⟩
  · exact absurd hkey hne
  · exact hv

theorem holds_put_of_ne {key' : String} {w : Value} (h : Holds entries key w) (hne : key ≠ key') :
    Holds (put entries key' v) key w := by
  obtain ⟨⟨e, he, hkey⟩, hall⟩ := h
  refine ⟨⟨e, mem_put_of_ne he ?_, hkey⟩, fun e he hkey => ?_⟩
  · rw [hkey]
    exact fun h => hne (Value.str.inj h)
  · rcases mem_put he with ⟨he, -⟩ | ⟨hkey', -⟩
    · exact hall e he hkey
    · exact absurd (Value.str.inj (hkey.symm.trans hkey')) hne

end

/-! ## Updates -/

/-- Some updates were written: each is found under its key, and all other entries
    are as they were, in their order. -/
structure Written (before : List (Value × Value)) (updates : List (String × Value))
    (after : List (Value × Value)) : Prop where
  holds : ∀ u ∈ updates, Holds after u.1 u.2
  others : ∀ p : Value × Value → Bool, (∀ e, ∀ u ∈ updates, e.1 = .str u.1 → p e = false) →
    after.filter p = before.filter p

theorem putAll_cons (entries : List (Value × Value)) (u : String × Value)
    (updates : List (String × Value)) :
    putAll entries (u :: updates) = putAll (put entries u.1 u.2) updates := rfl

theorem holds_putAll {entries : List (Value × Value)} {key : String} {v : Value}
    (h : Holds entries key v) {updates : List (String × Value)} (hne : ∀ u ∈ updates, key ≠ u.1) :
    Holds (putAll entries updates) key v := by
  induction updates generalizing entries with
  | nil => exact h
  | cons u updates ih =>
    rw [List.forall_mem_cons] at hne
    exact ih (holds_put_of_ne h hne.1) hne.2

/-- Updates under different keys are all written. -/
theorem written_putAll (entries : List (Value × Value)) {updates : List (String × Value)}
    (h : updates.Pairwise fun u w => u.1 ≠ w.1) :
    Written entries updates (putAll entries updates) := by
  induction updates generalizing entries with
  | nil => exact ⟨nofun, fun _ _ => rfl⟩
  | cons u updates ih =>
    rw [List.pairwise_cons] at h
    obtain ⟨hholds, hothers⟩ := ih (put entries u.1 u.2) h.2
    refine ⟨List.forall_mem_cons.2 ⟨holds_putAll (holds_put _ _ _) h.1, hholds⟩, fun p hp => ?_⟩
    rw [putAll_cons, hothers p fun e w hw => hp e w (List.mem_cons_of_mem _ hw)]
    exact filter_put fun e => hp e u List.mem_cons_self

/-- After some updates, what is not under one of their keys was there before. -/
theorem mem_putAll {entries : List (Value × Value)} {updates : List (String × Value)}
    {e : Value × Value} (h : e ∈ putAll entries updates) :
    (e ∈ entries ∧ ∀ u ∈ updates, e.1 ≠ .str u.1) ∨
      ∃ u ∈ updates, e.1 = .str u.1 ∧ e.2 = u.2 := by
  induction updates generalizing entries with
  | nil => exact .inl ⟨h, nofun⟩
  | cons u updates ih =>
    rcases ih h with ⟨hput, hne⟩ | ⟨w, hw, hkey⟩
    · rcases mem_put hput with ⟨hmem, hkey⟩ | hkey
      · exact .inl ⟨hmem, List.forall_mem_cons.2 ⟨hkey, hne⟩⟩
      · exact .inr ⟨u, List.mem_cons_self, hkey⟩
    · exact .inr ⟨w, List.mem_cons_of_mem _ hw, hkey⟩

/-- What was there under other keys is still there once several values are put in. -/
theorem mem_putAll_of_ne {entries : List (Value × Value)} {updates : List (String × Value)}
    {e : Value × Value} (h : e ∈ entries) (hne : ∀ u ∈ updates, e.1 ≠ .str u.1) :
    e ∈ putAll entries updates := by
  induction updates generalizing entries with
  | nil => exact h
  | cons u updates ih =>
    rw [List.forall_mem_cons] at hne
    exact ih (mem_put_of_ne h hne.1) hne.2

/-! ## Entries that are shown -/

/-- The keys of what a cycle writes, in the order in which they are first written. -/
def knownKeys : List String :=
  ["last_reflex_time", "last_dominant_morphism", "tensor_field_state", "derivation_hash"]

/-- Whether all entries have a text but those under keys that a cycle writes. -/
def restShowable (entries : List (Value × Value)) : Bool :=
  entries.all fun e =>
    knownKeys.any (fun key => e.1.eq (.str key)) || e.1.isShowable && e.2.isShowable

theorem restShowable_iff {entries : List (Value × Value)} :
    restShowable entries = true ↔ ∀ e ∈ entries, (∀ key ∈ knownKeys, e.1 ≠ .str key) →
      e.1.isShowable = true ∧ e.2.isShowable = true := by
  rw [restShowable, List.all_eq_true]
  refine forall₂_congr fun e _ => ?_
  rw [Bool.or_eq_true, List.any_eq_true, Bool.and_eq_true]
  constructor
  · rintro (⟨key, hkey, heq⟩ | hshown) hne
    · exact absurd (eq_str_iff.1 heq) (hne key hkey)
    · exact hshown
  · intro hshown
    by_cases hknown : ∃ key ∈ knownKeys, e.1.eq (.str key) = true
    · exact .inl hknown
    · exact .inr (hshown fun key hkey heq => hknown ⟨key, hkey, eq_str_iff.2 heq⟩)

section

variable {entries : List (Value × Value)} {updates : List (String × Value)}

/-- Updates under these keys make no difference to the other entries. -/
theorem restShowable_putAll (h : updates.map Prod.fst ⊆ knownKeys) :
    restShowable (putAll entries updates) = restShowable entries := by
  rw [Bool.eq_iff_iff, restShowable_iff, restShowable_iff]
  constructor
  · intro hall e he hne
    refine hall e (mem_putAll_of_ne he fun u hu => ?_) hne
    exact hne u.1 (h (List.mem_map_of_mem hu))
  · intro hall e he hne
    rcases mem_putAll he with ⟨hmem, -⟩ | ⟨u, hu, hkey, -⟩
    · exact hall e hmem hne
    · exact absurd hkey (hne u.1 (h (List.mem_map_of_mem hu)))

/-- With all that a cycle writes put in, and all of it having a text, the state has one iff
    the other entries do. -/
theorem isShowable_putAll (h : updates.map Prod.fst = knownKeys)
    (hshown : ∀ u ∈ updates, u.2.isShowable = true) :
    (Value.mapping (putAll entries updates)).isShowable = restShowable entries := by
  rw [Bool.eq_iff_iff, Value.isShowable, Value.entriesShowable_iff, restShowable_iff]
  constructor
  · intro hall e he hne
    refine hall e (mem_putAll_of_ne he fun u hu => ?_)
    exact hne u.1 (h ▸ List.mem_map_of_mem hu)
  · intro hall e he
    rcases mem_putAll he with ⟨hmem, hne⟩ | ⟨u, hu, hkey, hvalue⟩
    · refine hall e hmem fun key hkey => ?_
      obtain ⟨u, hu, rfl⟩ := List.mem_map.1 (h ▸ hkey)
      exact hne u hu
    · rw [hkey, hvalue]
      exact ⟨rfl, hshown u hu⟩

end

/-! ## Places -/

/-- Whether there is an entry with a key. -/
def hasKey (entries : List (Value × Value)) (key : String) : Bool :=
  entries.any fun e => e.1.eq (.str key)

/-- The entries with all values under a key replaced. -/
def replaced (entries : List (Value × Value)) (key : String) (v : Value) : List (Value × Value) :=
  entries.map fun e => if e.1.eq (.str key) then (e.1, v) else e

section

variable {entries : List (Value × Value)} {key key' : String} {v w : Value}

theorem put_of_hasKey (h : hasKey entries key = true) (v : Value) :
    put entries key v = replaced entries key v := if_pos h

theorem put_of_not_hasKey (h : hasKey entries key = false) (v : Value) :
    put entries key v = entries ++ [(.str key, v)] :=
  if_neg (Bool.eq_false_iff.1 h)

theorem keys_replaced (entries : List (Value × Value)) (key : String) (v : Value) :
    (replaced entries key v).map Prod.fst = entries.map Prod.fst := by
  rw [replaced, List.map_map]
  refine List.map_congr_left fun e _ => ?_
  rw [Function.comp]
  split <;> rfl

theorem hasKey_of_keys {entries' : List (Value × Value)}
    (h : entries'.map Prod.fst = entries.map Prod.fst) (key : String) :
    hasKey entries' key = hasKey entries key := by
  have hany (es : List (Value × Value)) :
      hasKey es key = (es.map Prod.fst).any fun k => k.eq (.str key) := by
    rw [List.any_map]
    rfl
  rw [hany, hany, h]

/-- A key that is set keeps its place, or is appended. -/
theorem keys_put (entries : List (Value × Value)) (key : String) (v : Value) :
    (put entries key v).map Prod.fst =
      entries.map Prod.fst ++ if hasKey entries key then [] else [.str key] := by
  cases h : hasKey entries key with
  | true => rw [put_of_hasKey h, keys_replaced, if_pos rfl, List.append_nil]
  | false => rw [put_of_not_hasKey h, List.map_append, if_neg Bool.false_ne_true]; rfl

theorem hasKey_append (entries others : List (Value × Value)) (key : String) :
    hasKey (entries ++ others) key = (hasKey entries key || hasKey others key) := List.any_append

theorem hasKey_single (key key' : String) (v : Value) :
    hasKey [(.str key, v)] key' = decide (key = key') := by
  rw [hasKey, List.any_cons, List.any_nil, Bool.or_false, Value.eq]

/-- Setting a key puts in no other one. -/
theorem hasKey_put (entries : List (Value × Value)) (key key' : String) (v : Value) :
    hasKey (put entries key v) key' = (hasKey entries key' || decide (key = key')) := by
  cases h : hasKey entries key with
  | true =>
    rw [put_of_hasKey h, hasKey_of_keys (keys_replaced entries key v)]
    by_cases hkey : key = key'
    · rw [← hkey, h, Bool.true_or]
    · rw [decide_eq_false hkey, Bool.or_false]
  | false => rw [put_of_not_hasKey h, hasKey_append, hasKey_single]

theorem hasKey_put_self (entries : List (Value × Value)) (key : String) (v : Value) :
    hasKey (put entries key v) key = true := by
  rw [hasKey_put, decide_eq_true rfl, Bool.or_true]

/-- After some updates there is an entry under each of their keys. -/
theorem hasKey_putAll {updates : List (String × Value)} {u : String × Value} (h : u ∈ updates)
    (entries : List (Value × Value)) : hasKey (putAll entries updates) u.1 = true := by
  have hkept {entries : List (Value × Value)} (h : hasKey entries u.1 = true)
      (updates : List (String × Value)) : hasKey (putAll entries updates) u.1 = true := by
    induction updates generalizing entries with
    | nil => exact h
    | cons w updates ih =>
      refine ih ?_
      rw [hasKey_put, h, Bool.true_or]
  induction updates generalizing entries with
  | nil => cases h
  | cons w updates ih =>
    rcases List.mem_cons.1 h with rfl | h
    · exact hkept (hasKey_put_self entries u.1 u.2) updates
    · exact ih h _

/-- Where there is no entry with a key nothing is replaced. -/
theorem replaced_of_not_hasKey (h : hasKey entries key = false) (v : Value) :
    replaced entries key v = entries := by
  have hne := List.any_eq_false.1 h
  rw [replaced]
  refine (List.map_congr_left fun e he => if_neg (hne e he)).trans ?_
  exact List.map_id entries

theorem replaced_append (entries others : List (Value × Value)) (key : String) (v : Value) :
    replaced (entries ++ others) key v = replaced entries key v ++ replaced others key v :=
  List.map_append

/-- Of two values set under one key the second is left. -/
theorem put_put_self (entries : List (Value × Value)) (key : String) (v w : Value) :
    put (put entries key v) key w = put entries key w := by
  rw [put_of_hasKey (hasKey_put_self entries key v)]
  cases h : hasKey entries key with
  | true =>
    rw [put_of_hasKey h, put_of_hasKey h, replaced, replaced, replaced, List.map_map]
    refine List.map_congr_left fun e _ => ?_
    rw [Function.comp]
    split <;> rfl
  | false =>
    rw [put_of_not_hasKey h, put_of_not_hasKey h, replaced_append, replaced_of_not_hasKey h,
      replaced, List.map_cons, if_pos (eq_str_iff.2 rfl), List.map_nil]

/-- The order does not matter in which two keys are set, if one of them is there. -/
theorem put_comm (h : hasKey entries key = true) (hne : key ≠ key') (v w : Value) :
    put (put entries key' w) key v = put (put entries key v) key' w := by
  have hkey : hasKey (put entries key' w) key = true := by rw [hasKey_put, h, Bool.true_or]
  have hkey' : hasKey (replaced entries key v) key' = hasKey entries key' :=
    hasKey_of_keys (keys_replaced entries key v) key'
  rw [put_of_hasKey hkey, put_of_hasKey h]
  cases h' : hasKey entries key' with
  | true =>
    rw [put_of_hasKey h', put_of_hasKey (hkey'.trans h'), replaced, replaced, replaced, replaced,
      List.map_map, List.map_map]
    refine List.map_congr_left fun e _ => ?_
    rw [Function.comp, Function.comp]
    by_cases he : e.1 = .str key
    · have hk : e.1.eq (.str key) = true := eq_str_iff.2 he
      have hk' : ¬ e.1.eq (.str key') = true := fun heq =>
        hne (Value.str.inj (he.symm.trans (eq_str_iff.1 heq)))
      rw [if_neg hk', if_pos hk, if_neg hk']
    · have hk : ¬ e.1.eq (.str key) = true := fun heq => he (eq_str_iff.1 heq)
      rw [if_neg hk]
      split <;> rfl
  | false =>
    rw [put_of_not_hasKey h', put_of_not_hasKey (hkey'.trans h'), replaced_append]
    refine congrArg (replaced entries key v ++ ·) (replaced_of_not_hasKey ?_ v)
    rw [hasKey_single, decide_eq_false hne.symm]

end

/-! ## Updates one after the other -/

section

variable {entries : List (Value × Value)} {us ws : List (String × Value)} {key : String}

/-- A key that is there can as well be set before the other ones. -/
theorem putAll_put (h : hasKey entries key = true) (hne : ∀ u ∈ us, key ≠ u.1) (v : Value) :
    putAll (put entries key v) us = put (putAll entries us) key v := by
  induction us generalizing entries with
  | nil => rfl
  | cons u us ih =>
    rw [List.forall_mem_cons] at hne
    have hkey : hasKey (put entries u.1 u.2) key = true := by rw [hasKey_put, h, Bool.true_or]
    rw [putAll_cons, ← put_comm h hne.1, ih hkey hne.2, ← putAll_cons]

/-- Setting the first key once more makes it as if it had been set to this before. -/
theorem putAll_single {u w : String × Value} (hkey : u.1 = w.1) (hne : ∀ x ∈ us, u.1 ≠ x.1) :
    putAll (putAll entries (u :: us)) [w] = putAll entries (w :: us) := by
  calc putAll (putAll entries (u :: us)) [w]
      = put (putAll (put entries u.1 u.2) us) u.1 w.2 := by
        rw [putAll_cons, putAll_cons, ← hkey]
        rfl
    _ = putAll (put (put entries u.1 u.2) u.1 w.2) us :=
      (putAll_put (hasKey_put_self entries u.1 u.2) hne w.2).symm
    _ = putAll entries (w :: us) := by rw [put_put_self, hkey, putAll_cons]

/-- Of updates that begin with the same keys only the later ones count. -/
theorem putAll_of_prefix (h : us.map Prod.fst <+: ws.map Prod.fst)
    (hws : ws.Pairwise fun u w => u.1 ≠ w.1) :
    putAll (putAll entries us) ws = putAll entries ws := by
  induction us generalizing entries ws with
  | nil => rfl
  | cons u us ih =>
    cases ws with
    | nil => exact absurd h.length_le (Nat.not_succ_le_zero _)
    | cons w ws =>
      obtain ⟨hkey, hrest⟩ := List.cons_prefix_cons.1 h
      rw [List.pairwise_cons] at hws
      have hne : ∀ x ∈ us, u.1 ≠ x.1 := by
        intro x hx heq
        obtain ⟨y, hy, hxy⟩ := List.mem_map.1 (hrest.subset (List.mem_map_of_mem hx))
        exact hws.1 y hy (hkey ▸ heq.trans hxy.symm)
      calc putAll (putAll entries (u :: us)) (w :: ws)
          = putAll (put (putAll (put entries u.1 u.2) us) u.1 w.2) ws := by
            rw [putAll_cons, putAll_cons, ← hkey]
        _ = putAll (putAll (put entries w.1 w.2) us) ws := by
          rw [← putAll_put (hasKey_put_self entries u.1 u.2) hne w.2, put_put_self, hkey]
        _ = putAll entries (w :: ws) := ih hrest hws.2

/-- All keys keep their places, and those that are new are behind them, in order. -/
theorem keys_putAll (entries : List (Value × Value)) (hus : us.Pairwise fun u w => u.1 ≠ w.1) :
    (putAll entries us).map Prod.fst = entries.map Prod.fst ++
      (us.filter fun u => !hasKey entries u.1).map fun u => .str u.1 := by
  induction us generalizing entries with
  | nil => exact (List.append_nil _).symm
  | cons u us ih =>
    rw [List.pairwise_cons] at hus
    have hsame : (us.filter fun w => !hasKey (put entries u.1 u.2) w.1) =
        us.filter fun w => !hasKey entries w.1 := by
      refine List.filter_congr fun w hw => ?_
      rw [hasKey_put, decide_eq_false (hus.1 w hw), Bool.or_false]
    rw [putAll_cons, ih _ hus.2, keys_put, hsame, List.append_assoc, List.filter_cons]
    cases hasKey entries u.1 with
    | true | false => rfl

end

end Reflex

end Heptad
