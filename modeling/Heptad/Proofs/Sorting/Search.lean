import Heptad.Proofs.Outcome
import Heptad.Sorting.Search

/-!
# What a search finds

If a test never fails on the items of a list, and holds of an item only if it holds of
those before it, then the number found by halving or by galloping cuts the list where
the test begins not to hold.

* `Cuts`: a number cuts a list by a test;
* `exists_bisect`, `exists_gallop`: what is found does, from either end;
* `asks_bisect`, `asks_gallop`: whatever the test, it has been asked of some item.
-/

namespace Heptad.Sorting

variable {α ε : Type} {q : α → Bool} {n : Nat} {x : α} {xs as bs : List α}

/-! ## Cuts -/

/-- The items of which a test holds are the first so many of a list. -/
structure Cuts (q : α → Bool) (n : Nat) (xs : List α) : Prop where
  le : n ≤ xs.length
  before : ∀ x ∈ xs.take n, q x = true
  behind : ∀ x ∈ xs.drop n, q x = false

/-- A test holds of an item only if it holds of those before it. -/
def Closed (q : α → Bool) (xs : List α) : Prop := xs.Pairwise fun x y => q y = true → q x = true

namespace Cuts

theorem nil (q : α → Bool) : Cuts q 0 [] := ⟨Nat.le_refl 0, nofun, nofun⟩

/-- Items of which the test holds can stand in front. -/
theorem append_left (h : Cuts q n bs) (has : ∀ a ∈ as, q a = true) :
    Cuts q (as.length + n) (as ++ bs) := by
  refine ⟨?_, ?_, ?_⟩
  · rw [List.length_append]
    exact Nat.add_le_add_left h.le _
  · rw [List.take_length_add_append]
    exact fun x hx => (List.mem_append.1 hx).elim (has x) (h.before x)
  · rw [List.drop_length_add_append]
    exact h.behind

/-- Items of which it does not hold can stand behind. -/
theorem append_right (h : Cuts q n as) (hbs : ∀ b ∈ bs, q b = false) : Cuts q n (as ++ bs) := by
  refine ⟨?_, ?_, ?_⟩
  · rw [List.length_append]
    exact Nat.le_add_right_of_le h.le
  · rw [List.take_append_of_le_length h.le]
    exact h.before
  · rw [List.drop_append_of_le_length h.le]
    exact fun x hx => (List.mem_append.1 hx).elim (h.behind x) (hbs x)

/-- If the test holds of an item, then the cut lies behind it. -/
theorem of_holds (h : Cuts q n bs) (hclosed : Closed q (as ++ x :: bs)) (hx : q x = true) :
    Cuts q (n + as.length + 1) (as ++ x :: bs) := by
  obtain ⟨-, -, hcross⟩ := List.pairwise_append.1 hclosed
  have hbefore : ∀ a ∈ as ++ [x], q a = true := by
    intro a ha
    rcases List.mem_append.1 ha with ha | ha
    · exact hcross a ha x List.mem_cons_self hx
    · exact List.mem_singleton.1 ha ▸ hx
  have hcut := h.append_left hbefore
  rw [List.append_assoc, List.length_append, List.length_singleton] at hcut
  rwa [Nat.add_assoc, Nat.add_comm]

/-- If the test does not hold of an item, then the cut lies before it. -/
theorem of_not_holds (h : Cuts q n as) (hclosed : Closed q (as ++ x :: bs)) (hx : q x = false) :
    Cuts q n (as ++ x :: bs) := by
  obtain ⟨-, hbehind, -⟩ := List.pairwise_append.1 hclosed
  refine h.append_right fun b hb => ?_
  rcases List.mem_cons.1 hb with rfl | hb
  · exact hx
  · have himp := (List.pairwise_cons.1 hbehind).1 b hb
    exact Bool.eq_false_iff.2 fun hq => Bool.eq_false_iff.1 hx (himp hq)

end Cuts

theorem Closed.sublist (h : Closed q xs) (hs : as.Sublist xs) : Closed q as :=
  List.Pairwise.sublist hs h

/-! ## Searches -/

variable {side : Side} {test : α → Except ε Bool}

/-- The middle lies inside of a list that is not empty. -/
theorem eq_nil_of_drop_middle (h : xs.drop (side.middle xs.length) = []) : xs = [] := by
  have hle := List.drop_eq_nil_iff.1 h
  refine List.eq_nil_iff_length_eq_zero.2 ?_
  cases side with
  | low | high =>
    simp only [Side.middle] at hle
    omega

/-- A list and the place of an item in it, seen from what is dropped before the item. -/
theorem eq_append_of_drop {m : Nat} (h : xs.drop m = x :: bs) :
    xs = xs.take m ++ x :: bs ∧ (xs.take m).length = m := by
  refine ⟨by rw [← h, List.take_append_drop], ?_⟩
  have hlt : m < xs.length := by
    have := congrArg List.length h
    rw [List.length_drop, List.length_cons] at this
    omega
  rw [List.length_take, Nat.min_eq_left (Nat.le_of_lt hlt)]

/-- The answer to the test of an item leads to the part of the list behind it or to the
    one before it. -/
theorem exists_of_item {m : Nat} {behind before : Except ε Nat} (hdrop : xs.drop m = x :: bs)
    (hq : ∀ x ∈ xs, test x = .ok (q x)) (hclosed : Closed q xs)
    (hbehind : ∃ n, behind = .ok n ∧ Cuts q n bs)
    (hbefore : ∃ n, before = .ok n ∧ Cuts q n (xs.take m)) :
    ∃ n, (do if ← test x then return (← behind) + m + 1 else before) = .ok n ∧ Cuts q n xs := by
  obtain ⟨hparts, hlength⟩ := eq_append_of_drop hdrop
  have hx : test x = .ok (q x) := hq x (by rw [hparts]; simp)
  rw [hparts] at hclosed
  rw [hx]
  cases hqx : q x with
  | true =>
    obtain ⟨n, rfl, hn⟩ := hbehind
    refine ⟨n + m + 1, rfl, ?_⟩
    have hcut := hn.of_holds hclosed hqx
    rwa [← hparts, hlength] at hcut
  | false =>
    obtain ⟨n, rfl, hn⟩ := hbefore
    refine ⟨n, rfl, ?_⟩
    have hcut := hn.of_not_holds hclosed hqx
    rwa [← hparts] at hcut

theorem bisect_of_drop_nil (h : xs.drop (side.middle xs.length) = []) :
    bisect side test xs = .ok 0 := by
  rw [bisect]
  split
  · rfl
  · rename_i hcons
    exact absurd (hcons.symm.trans h) (List.cons_ne_nil _ _)

theorem bisect_of_drop (h : xs.drop (side.middle xs.length) = x :: bs) :
    bisect side test xs = (do
      if ← test x then return (← bisect side test bs) + side.middle xs.length + 1
      else bisect side test (xs.take (side.middle xs.length))) := by
  rw [bisect]
  split
  · rename_i hnil
    exact absurd (h.symm.trans hnil) (List.cons_ne_nil _ _)
  · rename_i y after hcons
    obtain ⟨rfl, rfl⟩ := List.cons.inj (hcons.symm.trans h)
    rfl

/-- Halving finds where the test begins not to hold. -/
theorem exists_bisect (side : Side) (hq : ∀ x ∈ xs, test x = .ok (q x)) (hclosed : Closed q xs) :
    ∃ n, bisect side test xs = .ok n ∧ Cuts q n xs := by
  induction xs using bisect.induct side with
  | case1 xs middle hnil =>
    rw [bisect_of_drop_nil hnil]
    obtain rfl := eq_nil_of_drop_middle hnil
    exact ⟨0, rfl, .nil q⟩
  | case2 xs middle x after hcons ihafter ihbefore =>
    have hafter : after.Sublist xs :=
      (List.sublist_cons_self x after).trans (hcons ▸ List.drop_sublist _ _)
    have hbefore : (xs.take middle).Sublist xs := List.take_sublist _ _
    rw [bisect_of_drop hcons]
    exact exists_of_item hcons hq hclosed
      (ihafter (fun y hy => hq y (hafter.subset hy)) (hclosed.sublist hafter))
      (ihbefore (fun y hy => hq y (hbefore.subset hy)) (hclosed.sublist hbefore))

theorem widen_of_drop {skip : Nat} (h : xs.drop skip = x :: bs) :
    widen side test skip xs = (do
      if ← test x then return (← widen side test (2 * skip + 1) bs) + skip + 1
      else bisect side test (xs.take skip)) := by
  rw [widen]
  split
  · rename_i hnil
    exact absurd (h.symm.trans hnil) (List.cons_ne_nil _ _)
  · rename_i y after hcons
    obtain ⟨rfl, rfl⟩ := List.cons.inj (hcons.symm.trans h)
    rfl

theorem widen_of_drop_nil {skip : Nat} (h : xs.drop skip = []) :
    widen side test skip xs = bisect side test xs := by
  rw [widen]
  split
  · rfl
  · rename_i hcons
    exact absurd (hcons.symm.trans h) (List.cons_ne_nil _ _)

theorem exists_widen (side : Side) (skip : Nat) (hq : ∀ x ∈ xs, test x = .ok (q x))
    (hclosed : Closed q xs) : ∃ n, widen side test skip xs = .ok n ∧ Cuts q n xs := by
  induction skip, xs using widen.induct with
  | case1 skip xs hnil =>
    rw [widen_of_drop_nil hnil]
    exact exists_bisect side hq hclosed
  | case2 skip xs x after hcons ih =>
    have hafter : after.Sublist xs :=
      (List.sublist_cons_self x after).trans (hcons ▸ List.drop_sublist _ _)
    have hbefore : (xs.take skip).Sublist xs := List.take_sublist _ _
    rw [widen_of_drop hcons]
    exact exists_of_item hcons hq hclosed
      (ih (fun y hy => hq y (hafter.subset hy)) (hclosed.sublist hafter))
      (exists_bisect side (fun y hy => hq y (hbefore.subset hy)) (hclosed.sublist hbefore))

/-- Galloping finds it too. -/
theorem exists_gallop (side : Side) (hq : ∀ x ∈ xs, test x = .ok (q x)) (hclosed : Closed q xs) :
    ∃ n, gallop side test xs = .ok n ∧ Cuts q n xs := by
  cases xs with
  | nil => exact ⟨0, rfl, .nil q⟩
  | cons x xs =>
    have hxs : xs.Sublist (x :: xs) := List.sublist_cons_self x xs
    obtain ⟨n, hn, hcut⟩ := exists_widen side 0 (fun y hy => hq y (hxs.subset hy))
      (hclosed.sublist hxs)
    rw [gallop, hq x List.mem_cons_self, hn]
    cases hqx : q x with
    | true =>
      have hnil : Closed q ([] ++ x :: xs) := hclosed
      exact ⟨n + 1, rfl, hcut.of_holds hnil hqx⟩
    | false => exact ⟨0, rfl, (Cuts.nil q).of_not_holds hclosed hqx⟩

/-! ## What is asked -/

/-- Of a list that is not empty some item has been looked at, when anything is found. -/
theorem asks_bisect (side : Side) (test : α → Except ε Bool) (hne : xs ≠ []) :
    Yields True (fun _ => ∃ x ∈ xs, ∃ b, test x = .ok b) (bisect side test xs) := by
  cases hdrop : xs.drop (side.middle xs.length) with
  | nil => exact absurd (eq_nil_of_drop_middle hdrop) hne
  | cons x after =>
    have hx : x ∈ xs := List.mem_of_mem_drop (hdrop ▸ List.mem_cons_self)
    rw [bisect_of_drop hdrop]
    exact (Yields.self _).bind fun b hb => (Yields.trivial _).mono fun _ _ => ⟨x, hx, b, hb⟩

/-- Galloping looks at the first one. -/
theorem asks_gallop (side : Side) (test : α → Except ε Bool) (x : α) (xs : List α) :
    Yields True (fun _ => ∃ b, test x = .ok b) (gallop side test (x :: xs)) := by
  rw [gallop]
  exact (Yields.self _).bind fun b hb => (Yields.trivial _).mono fun _ _ => ⟨b, hb⟩

end Heptad.Sorting
