import Mathlib.Order.Lattice
import Heptad.Proofs.Sorting.Search
import Heptad.Sorting.Merge

/-!
# What is merged and joined

Merging and joining keep the items. If the runs are in order, by keys that the comparison
goes by, then so is what becomes of them, and nothing fails. If the comparison fails
between items of different classes, then runs of different classes are not joined.

* `yields_join`: what a join yields, from what its searches and merges do;
* `perm_merge`, `perm_join`: the items are kept;
* `Mergeable.yields`: from either side, what is merged of two runs in order;
* `pairwise_join`: runs in order are joined into one;
* `uniform_join`: what is joined is of one class.
-/

namespace Heptad.Sorting

variable {α ε κ : Type} {lt : α → α → Except ε Bool} {side : Side}

/-! ## Items are kept -/

theorem perm_rest (side : Side) (xs ys : List α) : (side.rest xs ys).Perm (xs ++ ys) := by
  cases side with
  | low => exact List.perm_append_comm
  | high => exact .refl _

/-- A stretch of one run and an item of the other in front of what is merged of the rest. -/
theorem perm_stretch {bs cs merged : List α} (as : List α) (z : α) (h : merged.Perm (bs ++ cs)) :
    (as ++ z :: merged).Perm (as ++ bs ++ z :: cs) := by
  rw [List.append_assoc]
  exact ((h.cons z).trans List.perm_middle.symm).append_left as

/-- A merge keeps the items, whether or not they are in order. -/
theorem perm_merge (lt : α → α → Except ε Bool) (side : Side) (pace : Pace) (patience : Nat)
    (xs ys : List α) :
    Yields True (fun r => r.1.Perm (xs ++ ys)) (merge lt side pace patience xs ys) := by
  induction pace, patience, xs, ys using merge.induct side with
  | case1 pace patience x xs y ys hs =>
    rw [merge.eq_def]
    dsimp only
    rw [if_pos hs]
    exact perm_rest side _ _
  | case2 patience x xs y ys hs first second ihfirst ihsecond =>
    rw [merge.eq_def]
    dsimp only
    rw [if_neg hs]
    refine (Yields.trivial _).bind fun isFirst _ => ?_
    split
    · exact ihfirst.bind fun r hr => hr.cons x
    · exact ihsecond.bind fun r hr => (hr.cons y).trans List.perm_middle.symm
  | case3 patience x xs y ys hs ih =>
    rw [merge.eq_def]
    dsimp only
    rw [if_neg hs]
    refine (Yields.trivial _).bind fun n _ => (ih n).bind fun r hr => ?_
    have hp := perm_stretch ((x :: xs).take n) y hr
    rwa [List.take_append_drop] at hp
  | case4 patience x xs y ys hs stretch ih =>
    rw [merge.eq_def]
    dsimp only
    rw [if_neg hs]
    refine (Yields.trivial _).bind fun n _ => (ih n _ _).bind fun r hr => ?_
    have hp := perm_stretch ((y :: ys).take n) x (hr.trans List.perm_append_comm)
    rw [List.take_append_drop] at hp
    exact hp.trans List.perm_append_comm
  | case5 pace patience xs ys hnot =>
    rw [merge]
    · exact perm_rest side _ _
    · exact hnot

/-- What a join yields, from what its two searches and its merge from either side yield.
    The first search cuts off the items of the first run that come before all of the
    second one, the other search those of the second run that come behind all of the
    first one. -/
theorem yields_join {mayFail : Prop} {P : List α → Prop} {xs ys : List α} {y : α} {patience : Nat}
    {S : Nat → Prop}
    (hstart : Yields mayFail S (gallop .low (fun x => Side.low.firstNext lt x y) xs))
    (hbefore : ∀ start, S start → xs.drop start = [] → P (xs ++ y :: ys))
    (hinside : ∀ start last before, S start → (xs.drop start).reverse = last :: before →
      Yields mayFail
        (fun stop =>
          let inside := (y :: ys).take ((y :: ys).length - stop)
          let beyond := (y :: ys).drop ((y :: ys).length - stop)
          Yields mayFail (fun r => P (xs.take start ++ (inside.take 1 ++ r.1) ++ beyond))
            (merge lt .low (.single 0 0) patience (xs.drop start) inside.tail) ∧
          Yields mayFail (fun r => P (xs.take start ++ (last :: r.1).reverse ++ beyond))
            (merge lt .high (.single 0 0) patience before inside.reverse))
        (gallop .high (fun y => Side.high.secondNext lt last y) (y :: ys).reverse)) :
    Yields mayFail (fun r => P r.1) (join lt patience xs (y :: ys)) := by
  rw [join]
  refine hstart.bind fun start hs => ?_
  split
  · rename_i hnil
    exact hbefore start hs (List.reverse_eq_nil_iff.1 hnil)
  · rename_i last before hlast
    refine (hinside start last before hs hlast).bind fun stop hmerge => ?_
    dsimp only at hmerge ⊢
    split
    · exact hmerge.1.bind fun r hr => hr
    · exact hmerge.2.bind fun r hr => hr

/-- From the low side the first item of the second run has been set aside. -/
theorem perm_low {mid inside merged : List α} (h : merged.Perm (mid ++ inside.tail)) :
    (inside.take 1 ++ merged).Perm (mid ++ inside) := by
  have hp := (h.append_left (inside.take 1)).trans (List.perm_append_comm_assoc _ _ _)
  rwa [← List.drop_one, List.take_append_drop] at hp

/-- From the high side the last item of the first run has been set aside. -/
theorem perm_high {mid inside before merged : List α} {last : α}
    (hmid : mid.reverse = last :: before) (h : merged.Perm (before ++ inside.reverse)) :
    (last :: merged).reverse.Perm (mid ++ inside) := by
  have hp := (List.reverse_perm _).trans (h.cons last)
  have hmid' : (last :: before).Perm mid := hmid ▸ List.reverse_perm mid
  exact hp.trans (hmid'.append (List.reverse_perm inside))

/-- A join keeps the items. -/
theorem perm_join (lt : α → α → Except ε Bool) (patience : Nat) (xs ys : List α) :
    Yields True (fun r => r.1.Perm (xs ++ ys)) (join lt patience xs ys) := by
  cases ys with
  | nil => exact .of_eq (List.append_nil xs).symm
  | cons y ys =>
    refine yields_join (P := fun zs => zs.Perm (xs ++ y :: ys)) (Yields.trivial _)
      (fun _ _ _ => .refl _) fun start last before _ hlast => ?_
    refine (Yields.trivial _).mono fun stop _ => ?_
    intro inside beyond
    -- What is merged are the items that no search has cut off.
    have hparts {merged : List α} (h : merged.Perm (xs.drop start ++ inside)) :
        (xs.take start ++ merged ++ beyond).Perm (xs ++ y :: ys) := by
      have hp := (h.append_left (xs.take start)).append_right beyond
      rwa [← List.append_assoc, List.take_append_drop, List.append_assoc xs,
        List.take_append_drop] at hp
    exact ⟨(perm_merge lt .low _ _ _ _).mono fun r hr => hparts (perm_low hr),
      (perm_merge lt .high _ _ _ _).mono fun r hr => hparts (perm_high hlast hr)⟩

/-! ## Items are put in order -/

section

variable [LinearOrder κ]

/-- The comparison of items of a list is that of their keys, and does not fail. -/
def ComparesBy (lt : α → α → Except ε Bool) (key : α → κ) (xs : List α) : Prop :=
  ∀ x ∈ xs, ∀ y ∈ xs, lt x y = .ok (decide (key x < key y))

namespace Side

/-- Whether an item comes before another one in what is merged from a side, or they have
    the same key. -/
def Before (side : Side) (key : α → κ) (x y : α) : Prop :=
  match side with
  | low => key x ≤ key y
  | high => key y ≤ key x

/-- Whether an item of the first run comes before one of the second; of items with the
    same key that of the first run stands lower. -/
def first (side : Side) (key : α → κ) (x y : α) : Bool :=
  match side with
  | low => decide (key x ≤ key y)
  | high => decide (key y < key x)

variable {key : α → κ} {x y z : α}

theorem Before.trans (h : side.Before key x y) (h' : side.Before key y z) :
    side.Before key x z := by
  cases side with
  | low => exact le_trans h h'
  | high => exact le_trans h' h

theorem before_of_first (h : side.first key x y = true) : side.Before key x y := by
  cases side with
  | low =>
    have hle : key x ≤ key y := of_decide_eq_true h
    exact hle
  | high => exact le_of_lt (of_decide_eq_true h)

theorem before_of_not_first (h : side.first key x y = false) : side.Before key y x := by
  cases side with
  | low => exact le_of_lt (not_le.1 (of_decide_eq_false h))
  | high => exact not_lt.1 (of_decide_eq_false h)

/-- What comes before an item of the first run comes first if that does. -/
theorem first_of_before (h : side.Before key x y) (hy : side.first key y z = true) :
    side.first key x z = true := by
  cases side with
  | low =>
    have hxy : key x ≤ key y := h
    exact decide_eq_true (le_trans hxy (of_decide_eq_true hy))
  | high =>
    have hxy : key y ≤ key x := h
    exact decide_eq_true (lt_of_lt_of_le (of_decide_eq_true hy) hxy)

/-- What comes behind an item of the second run comes second if that does. -/
theorem first_of_behind (h : side.Before key y z) (hx : side.first key x y = true) :
    side.first key x z = true := by
  cases side with
  | low =>
    have hyz : key y ≤ key z := h
    exact decide_eq_true (le_trans (of_decide_eq_true hx) hyz)
  | high =>
    have hyz : key z ≤ key y := h
    exact decide_eq_true (lt_of_le_of_lt hyz (of_decide_eq_true hx))

theorem firstNext_eq (h : lt y x = .ok (decide (key y < key x))) :
    side.firstNext lt x y = .ok (side.first key x y) := by
  cases side with
  | low =>
    rw [firstNext, h]
    show Except.ok (!decide (key y < key x)) = Except.ok (decide (key x ≤ key y))
    rw [← decide_not, decide_eq_decide.2 not_lt]
  | high => exact h

theorem secondNext_eq (h : lt y x = .ok (decide (key y < key x))) :
    side.secondNext lt x y = .ok (!side.first key x y) := by
  rw [secondNext, firstNext_eq h]
  rfl

/-- The last item of one of the runs comes behind all of the other run. -/
def Reserved (side : Side) (key : α → κ) (xs ys : List α) : Prop :=
  match side with
  | low => ∀ x ∈ xs.getLast?, ∀ y ∈ ys, low.Before key y x
  | high => ∀ y ∈ ys.getLast?, ∀ x ∈ xs, high.Before key x y

/-- The last item stays behind the other run if items are taken from the front of either. -/
theorem Reserved.of_suffix {xs ys xs' ys' : List α} (h : side.Reserved key xs ys) (hx : xs' <:+ xs)
    (hy : ys' <:+ ys) : side.Reserved key xs' ys' := by
  have hlast {as bs : List α} {a : α} (hs : as <:+ bs) (ha : a ∈ as.getLast?) :
      a ∈ bs.getLast? := by
    obtain ⟨front, rfl⟩ := hs
    rw [List.getLast?_append, Option.mem_def.1 ha]
    rfl
  cases side with
  | low => exact fun x hx' y hy' => h x (hlast hx hx') y (hy.subset hy')
  | high => exact fun y hy' x hx' => h y (hlast hy hy') x (hx.subset hx')

/-- What is left of a settled merge is in order. -/
theorem pairwise_rest {xs ys : List α} (h : side.settled xs ys = true)
    (hx : xs.Pairwise (side.Before key)) (hy : ys.Pairwise (side.Before key))
    (hr : side.Reserved key xs ys) : (side.rest xs ys).Pairwise (side.Before key) := by
  -- The run of which the last item is reserved has no other item left, or the other run none.
  have hcross {as bs : List α} (hs : (bs.tail.isEmpty || as.isEmpty) = true)
      (hlast : ∀ b ∈ bs.getLast?, ∀ a ∈ as, side.Before key a b) :
      ∀ a ∈ as, ∀ b ∈ bs, side.Before key a b := by
    intro a ha b hb
    rcases (Bool.or_eq_true _ _).mp hs with hs | hs
    · obtain rfl : bs = [b] := by
        cases bs with
        | nil => cases hb
        | cons c cs =>
          obtain rfl : cs = [] := List.isEmpty_iff.1 hs
          rw [List.mem_singleton.1 hb]
      exact hlast b rfl a ha
    · rw [List.isEmpty_iff.1 hs] at ha
      cases ha
  cases side with
  | low => exact List.pairwise_append.2 ⟨hy, hx, hcross h hr⟩
  | high => exact List.pairwise_append.2 ⟨hx, hy, hcross ((Bool.or_comm _ _).trans h) hr⟩

/-- A stretch of one run, an item of the other, and what is merged of the rest. -/
theorem pairwise_stretch {as merged : List α} {z : α} (has : as.Pairwise (side.Before key))
    (hmerged : merged.Pairwise (side.Before key)) (hbefore : ∀ a ∈ as, side.Before key a z)
    (hbehind : ∀ b ∈ merged, side.Before key z b) :
    (as ++ z :: merged).Pairwise (side.Before key) := by
  refine List.pairwise_append.2 ⟨has, List.pairwise_cons.2 ⟨hbehind, hmerged⟩, ?_⟩
  intro a ha b hb
  rcases List.mem_cons.1 hb with rfl | hb
  · exact hbefore a ha
  · exact (hbefore a ha).trans (hbehind b hb)

end Side

variable {key : α → κ} {xs ys : List α}

theorem ComparesBy.mono (h : ComparesBy lt key xs) (hs : ys ⊆ xs) : ComparesBy lt key ys :=
  fun x hx y hy => h x (hs hx) y (hs hy)

/-- Galloping through the first run stops where the items come behind one of the second. -/
theorem exists_gallop_first {y : α} (hlt : ∀ x ∈ xs, lt y x = .ok (decide (key y < key x)))
    (hxs : xs.Pairwise (side.Before key)) :
    ∃ n, gallop side (fun x => side.firstNext lt x y) xs = .ok n ∧
      Cuts (fun x => side.first key x y) n xs :=
  exists_gallop side (fun x hx => Side.firstNext_eq (hlt x hx))
    (hxs.imp fun h => Side.first_of_before h)

/-- Galloping through the second run stops where they come behind one of the first. -/
theorem exists_gallop_second {x : α} (hlt : ∀ y ∈ ys, lt y x = .ok (decide (key y < key x)))
    (hys : ys.Pairwise (side.Before key)) :
    ∃ n, gallop side (fun y => side.secondNext lt x y) ys = .ok n ∧
      Cuts (fun y => !side.first key x y) n ys := by
  refine exists_gallop side (fun y hy => Side.secondNext_eq (hlt y hy)) (hys.imp ?_)
  intro y z h hz
  rw [Bool.not_eq_true'] at hz ⊢
  exact Bool.eq_false_iff.2 fun hy => Bool.eq_false_iff.1 hz (Side.first_of_behind h hy)

/-- Two runs that can be merged from a side: each is in order, their items can be
    compared, and the last item of one of them comes last. -/
structure Mergeable (lt : α → α → Except ε Bool) (key : α → κ) (side : Side) (xs ys : List α) :
    Prop where
  compares : ComparesBy lt key (xs ++ ys)
  first : xs.Pairwise (side.Before key)
  second : ys.Pairwise (side.Before key)
  reserved : side.Reserved key xs ys

namespace Mergeable

/-- Runs can still be merged if items of either are taken from the front. -/
theorem of_suffix {xs' ys' : List α} (h : Mergeable lt key side xs ys) (hx : xs' <:+ xs)
    (hy : ys' <:+ ys) : Mergeable lt key side xs' ys' where
  compares := h.compares.mono (hx.sublist.append hy.sublist).subset
  first := h.first.sublist hx.sublist
  second := h.second.sublist hy.sublist
  reserved := h.reserved.of_suffix hx hy

variable {x y : α}

theorem compares_items (h : Mergeable lt key side xs ys) (hx : x ∈ xs) (hy : y ∈ ys) :
    lt y x = .ok (decide (key y < key x)) :=
  h.compares y (List.mem_append_right xs hy) x (List.mem_append_left ys hx)

/-- If the first run goes on, then with an item before all others. -/
theorem before_of_first (h : Mergeable lt key side (x :: xs) (y :: ys))
    (hxy : side.first key x y = true) : ∀ z ∈ xs ++ y :: ys, side.Before key x z := by
  intro z hz
  rcases List.mem_append.1 hz with hz | hz
  · exact List.rel_of_pairwise_cons h.first hz
  · rcases List.mem_cons.1 hz with rfl | hz
    · exact Side.before_of_first hxy
    · exact (Side.before_of_first hxy).trans (List.rel_of_pairwise_cons h.second hz)

/-- If the second run goes on, then with an item before all others. -/
theorem before_of_not_first (h : Mergeable lt key side (x :: xs) (y :: ys))
    (hxy : side.first key x y = false) : ∀ z ∈ x :: xs ++ ys, side.Before key y z := by
  intro z hz
  rcases List.mem_append.1 hz with hz | hz
  · rcases List.mem_cons.1 hz with rfl | hz
    · exact Side.before_of_not_first hxy
    · exact (Side.before_of_not_first hxy).trans (List.rel_of_pairwise_cons h.first hz)
  · exact List.rel_of_pairwise_cons h.second hz

end Mergeable

/-- Runs that are in order are merged into one. -/
theorem pairwise_merge (side : Side) (pace : Pace) (patience : Nat)
    (h : Mergeable lt key side xs ys) :
    Yields False (fun r => r.1.Pairwise (side.Before key)) (merge lt side pace patience xs ys) := by
  induction pace, patience, xs, ys using merge.induct side with
  | case1 pace patience x xs y ys hs =>
    rw [merge.eq_def]
    dsimp only
    rw [if_pos hs]
    exact Side.pairwise_rest hs h.first h.second h.reserved
  | case2 patience x xs y ys hs first second ihfirst ihsecond =>
    have hcompare := h.compares_items List.mem_cons_self List.mem_cons_self
    rw [merge.eq_def]
    dsimp only
    rw [if_neg hs, Side.firstNext_eq hcompare]
    cases hxy : side.first key x y with
    | true =>
      have hrest := ihfirst (h.of_suffix (List.suffix_cons x xs) List.suffix_rfl)
      refine (hrest.and (perm_merge lt side _ patience xs (y :: ys))).bind fun r hr => ?_
      exact List.pairwise_cons.2 ⟨fun z hz => h.before_of_first hxy z (hr.2.mem_iff.1 hz), hr.1⟩
    | false =>
      have hrest := ihsecond (h.of_suffix List.suffix_rfl (List.suffix_cons y ys))
      refine (hrest.and (perm_merge lt side _ patience (x :: xs) ys)).bind fun r hr => ?_
      exact List.pairwise_cons.2 ⟨fun z hz => h.before_of_not_first hxy z (hr.2.mem_iff.1 hz), hr.1⟩
  | case3 patience x xs y ys hs ih =>
    have hcompare : ∀ z ∈ x :: xs, lt y z = .ok (decide (key y < key z)) :=
      fun z hz => h.compares_items hz List.mem_cons_self
    obtain ⟨n, hn, hcut⟩ := exists_gallop_first hcompare h.first
    rw [merge.eq_def]
    dsimp only
    rw [if_neg hs, hn]
    have hrest := ih n (h.of_suffix (List.drop_suffix n _) (List.suffix_cons y ys))
    refine (hrest.and (perm_merge lt side _ patience _ ys)).bind fun r hr => ?_
    refine Side.pairwise_stretch h.first.take hr.1
      (fun a ha => Side.before_of_first (hcut.before a ha)) fun b hb => ?_
    rcases List.mem_append.1 (hr.2.mem_iff.1 hb) with hb | hb
    · exact Side.before_of_not_first (hcut.behind b hb)
    · exact List.rel_of_pairwise_cons h.second hb
  | case4 patience x xs y ys hs stretch ih =>
    have hcompare : ∀ z ∈ y :: ys, lt z x = .ok (decide (key z < key x)) :=
      fun z hz => h.compares_items List.mem_cons_self hz
    obtain ⟨n, hn, hcut⟩ := exists_gallop_second hcompare h.second
    rw [merge.eq_def]
    dsimp only
    rw [if_neg hs, hn]
    have hleft := h.of_suffix (List.suffix_cons x xs) (List.drop_suffix n _)
    refine ((ih n _ _ hleft).and (perm_merge lt side _ _ xs _)).bind fun r hr => ?_
    refine Side.pairwise_stretch h.second.take hr.1 (fun a ha => ?_) fun b hb => ?_
    · exact Side.before_of_not_first ((Bool.not_eq_true' _).mp (hcut.before a ha))
    · rcases List.mem_append.1 (hr.2.mem_iff.1 hb) with hb | hb
      · exact List.rel_of_pairwise_cons h.first hb
      · exact Side.before_of_first ((Bool.not_eq_false' _).mp (hcut.behind b hb))
  | case5 pace patience xs ys hnot =>
    have hs : side.settled xs ys = true := by
      cases xs with
      | nil => cases side <;> rfl
      | cons x xs =>
        cases ys with
        | nil => cases side <;> simp [Side.settled]
        | cons y ys => exact (hnot x xs y ys rfl rfl).elim
    rw [merge]
    · exact Side.pairwise_rest hs h.first h.second h.reserved
    · exact hnot

/-- What is merged of two runs are their items in order. -/
theorem Mergeable.yields (h : Mergeable lt key side xs ys) (pace : Pace) (patience : Nat) :
    Yields False (fun r => r.1.Pairwise (side.Before key) ∧ r.1.Perm (xs ++ ys))
      (merge lt side pace patience xs ys) :=
  (pairwise_merge side pace patience h).and (perm_merge lt side pace patience xs ys)

/-- Items in order between two others, one of which comes behind the items in front of
    them and the other before those behind them. -/
theorem pairwise_between {front items back : List α} {y z : α}
    (hfront : front.Pairwise (Side.low.Before key)) (hitems : items.Pairwise (Side.low.Before key))
    (hback : back.Pairwise (Side.low.Before key)) (hy : ∀ a ∈ front, Side.low.Before key a y)
    (hz : ∀ b ∈ back, Side.low.Before key z b)
    (hbetween : ∀ x ∈ items, Side.low.Before key y x ∧ Side.low.Before key x z)
    (hyz : Side.low.Before key y z) :
    (front ++ items ++ back).Pairwise (Side.low.Before key) := by
  refine List.pairwise_append.2 ⟨List.pairwise_append.2 ⟨hfront, hitems, ?_⟩, hback, ?_⟩
  · exact fun a ha x hx => (hy a ha).trans (hbetween x hx).1
  · intro a ha b hb
    rcases List.mem_append.1 ha with ha | ha
    · exact ((hy a ha).trans hyz).trans (hz b hb)
    · exact (hbetween a ha).2.trans (hz b hb)

theorem pairwise_reverse :
    xs.reverse.Pairwise (Side.high.Before key) ↔ xs.Pairwise (Side.low.Before key) :=
  List.pairwise_reverse

/-- What the two searches of a join leave to be merged. Of the first run these are the
    items behind the first one of the second run, of which the last is given; of the
    second run the items before this last one. -/
structure Overlap (lt : α → α → Except ε Bool) (key : α → κ) (y last : α) (mid inside : List α) :
    Prop where
  compares : ComparesBy lt key (mid ++ inside)
  first : mid.Pairwise (Side.low.Before key)
  second : inside.Pairwise (Side.low.Before key)
  behind : ∀ x ∈ mid, key y < key x
  head : ∀ x ∈ inside.head?, x = y
  getLast : mid.getLast? = some last
  before : ∀ z ∈ inside, key z < key last

namespace Overlap

variable {y last : α} {mid inside : List α}

theorem mid_le (h : Overlap lt key y last mid inside) : ∀ x ∈ mid, key x ≤ key last := by
  intro x hx
  obtain ⟨front, rfl⟩ := List.getLast?_eq_some_iff.1 h.getLast
  rcases List.mem_append.1 hx with hx | hx
  · exact (List.pairwise_append.1 h.first).2.2 x hx last List.mem_cons_self
  · exact le_of_eq (congrArg key (List.mem_singleton.1 hx))

theorem le_inside (h : Overlap lt key y last mid inside) : ∀ z ∈ inside, key y ≤ key z := by
  intro z hz
  cases inside with
  | nil => cases hz
  | cons x inside =>
    obtain rfl := h.head x rfl
    rcases List.mem_cons.1 hz with rfl | hz
    · exact le_rfl
    · exact List.rel_of_pairwise_cons h.second hz

/-- All that is merged lies between the two. -/
theorem between (h : Overlap lt key y last mid inside) :
    ∀ x ∈ mid ++ inside, key y ≤ key x ∧ key x ≤ key last := by
  intro x hx
  rcases List.mem_append.1 hx with hx | hx
  · exact ⟨le_of_lt (h.behind x hx), h.mid_le x hx⟩
  · exact ⟨h.le_inside x hx, le_of_lt (h.before x hx)⟩

/-- From the low side the last item is known to come last. -/
theorem low (h : Overlap lt key y last mid inside) :
    Mergeable lt key .low mid inside.tail where
  compares := h.compares.mono (List.append_subset.2
    ⟨List.subset_append_left _ _, fun z hz => List.mem_append_right _ (List.mem_of_mem_tail hz)⟩)
  first := h.first
  second := h.second.tail
  reserved := by
    intro x hx z hz
    obtain rfl := Option.some.inj (h.getLast.symm.trans hx)
    exact le_of_lt (h.before z (List.mem_of_mem_tail hz))

/-- From the high side the first item of the second run is known to come first. -/
theorem high {before : List α} (h : Overlap lt key y last mid inside)
    (hmid : mid.reverse = last :: before) : Mergeable lt key .high before inside.reverse where
  compares := by
    refine h.compares.mono (List.append_subset.2 ⟨fun x hx => ?_, fun z hz => ?_⟩)
    · have hx' : x ∈ mid.reverse := hmid ▸ List.mem_cons_of_mem last hx
      exact List.mem_append_left _ (List.mem_reverse.1 hx')
    · exact List.mem_append_right _ (List.mem_reverse.1 hz)
  first := by
    have hmidhigh := pairwise_reverse.2 h.first
    rw [hmid] at hmidhigh
    exact hmidhigh.of_cons
  second := pairwise_reverse.2 h.second
  reserved := by
    intro z hz x hx
    rw [List.getLast?_reverse] at hz
    have hx' : x ∈ mid.reverse := hmid ▸ List.mem_cons_of_mem last hx
    rw [h.head z hz]
    exact le_of_lt (h.behind x (List.mem_reverse.1 hx'))

/-- The item that has been set aside on the low side is put in front. -/
theorem pairwise_low {merged : List α} (h : Overlap lt key y last mid inside)
    (hmerged : merged.Pairwise (Side.low.Before key)) (hp : merged.Perm (mid ++ inside.tail)) :
    (inside.take 1 ++ merged).Pairwise (Side.low.Before key) := by
  refine List.pairwise_append.2 ⟨h.second.take, hmerged, fun a ha z hz => ?_⟩
  have hz' := (perm_low hp).mem_iff.1 (List.mem_append_right (inside.take 1) hz)
  rw [List.take_one] at ha
  rw [h.head a (Option.mem_toList.1 ha)]
  exact (h.between z hz').1

/-- The item that has been set aside on the high side is put behind. -/
theorem pairwise_high {before merged : List α} (h : Overlap lt key y last mid inside)
    (hmid : mid.reverse = last :: before) (hmerged : merged.Pairwise (Side.high.Before key))
    (hp : merged.Perm (before ++ inside.reverse)) :
    (last :: merged).reverse.Pairwise (Side.low.Before key) := by
  refine List.pairwise_reverse.2 (List.pairwise_cons.2 ⟨fun z hz => ?_, hmerged⟩)
  have hz' : z ∈ (last :: merged).reverse := List.mem_reverse.2 (List.mem_cons_of_mem last hz)
  exact (h.between z ((perm_high hmid hp).mem_iff.1 hz')).2

end Overlap

/-- The two searches find such items. -/
theorem overlap_of_cuts {y last : α} {before : List α} {start stop : Nat}
    (hlt : ComparesBy lt key (xs ++ y :: ys)) (hxs : xs.Pairwise (Side.low.Before key))
    (hys : (y :: ys).Pairwise (Side.low.Before key))
    (hstart : Cuts (fun x => Side.low.first key x y) start xs)
    (hlast : (xs.drop start).reverse = last :: before)
    (hstop : Cuts (fun z => !Side.high.first key last z) stop (y :: ys).reverse) :
    Overlap lt key y last (xs.drop start) ((y :: ys).take ((y :: ys).length - stop)) where
  compares := hlt.mono (List.append_subset.2
    ⟨fun x hx => List.mem_append_left _ (List.mem_of_mem_drop hx),
      fun z hz => List.mem_append_right _ (List.mem_of_mem_take hz)⟩)
  first := hxs.drop
  second := hys.take
  behind x hx := not_le.1 (of_decide_eq_false (hstart.behind x hx))
  head z hz := by
    rw [List.head?_take] at hz
    split at hz
    · cases hz
    · exact (Option.some.inj hz).symm
  getLast := by rw [← List.head?_reverse, hlast, List.head?_cons]
  before z hz := by
    have hz' : z ∈ (y :: ys).reverse.drop stop := by
      rw [List.drop_reverse]
      exact List.mem_reverse.2 hz
    exact of_decide_eq_true ((Bool.not_eq_false' _).mp (hstop.behind z hz'))

/-- If the search cuts off all of the first run then the runs are in order already. -/
theorem pairwise_append_of_cuts {y : α} {start : Nat} (hxs : xs.Pairwise (Side.low.Before key))
    (hys : (y :: ys).Pairwise (Side.low.Before key))
    (hstart : Cuts (fun x => Side.low.first key x y) start xs) (hnil : xs.drop start = []) :
    (xs ++ y :: ys).Pairwise (Side.low.Before key) := by
  have hall : xs.take start = xs := List.take_of_length_le (List.drop_eq_nil_iff.1 hnil)
  have hbefore : ∀ x ∈ xs, key x ≤ key y :=
    fun x hx => Side.before_of_first (hstart.before x (hall.symm ▸ hx))
  refine List.pairwise_append.2 ⟨hxs, hys, fun x hx z hz => ?_⟩
  rcases List.mem_cons.1 hz with rfl | hz
  · exact hbefore x hx
  · exact le_trans (hbefore x hx) (List.rel_of_pairwise_cons hys hz)

/-- Runs that are in order are joined into one. -/
theorem pairwise_join (patience : Nat) (hlt : ComparesBy lt key (xs ++ ys))
    (hxs : xs.Pairwise (Side.low.Before key)) (hys : ys.Pairwise (Side.low.Before key)) :
    Yields False (fun r => r.1.Pairwise (Side.low.Before key)) (join lt patience xs ys) := by
  cases ys with
  | nil => exact hxs
  | cons y ys =>
    have hcompare {x z : α} (hx : x ∈ xs) (hz : z ∈ y :: ys) :
        lt z x = .ok (decide (key z < key x)) :=
      hlt z (List.mem_append_right _ hz) x (List.mem_append_left _ hx)
    obtain ⟨start, hgallop, hstart⟩ :=
      exists_gallop_first (fun x hx => hcompare hx List.mem_cons_self) hxs
    refine yields_join (P := fun zs => zs.Pairwise (Side.low.Before key))
      (S := fun n => Cuts (fun x => Side.low.first key x y) n xs)
      (yields_false_iff.2 ⟨start, hgallop, hstart⟩) ?_ ?_
    · exact fun _ hstart hnil => pairwise_append_of_cuts hxs hys hstart hnil
    · intro start last before hstart hlast
      have hmem : last ∈ xs.drop start := List.mem_reverse.1 (hlast ▸ List.mem_cons_self)
      have hcompare' : ∀ z ∈ (y :: ys).reverse, lt z last = .ok (decide (key z < key last)) :=
        fun z hz => hcompare (List.mem_of_mem_drop hmem) (List.mem_reverse.1 hz)
      obtain ⟨stop, hgallop', hstop⟩ :=
        exists_gallop_second hcompare' (pairwise_reverse.2 hys)
      have hoverlap := overlap_of_cuts hlt hxs hys hstart hlast hstop
      refine yields_false_iff.2 ⟨stop, hgallop', ?_⟩
      intro inside beyond
      have hbeyond : ∀ b ∈ beyond, key last ≤ key b := by
        intro b hb
        have hb' : b ∈ (y :: ys).reverse.take stop := by
          rw [List.take_reverse]
          exact List.mem_reverse.2 hb
        exact Side.before_of_not_first ((Bool.not_eq_true' _).mp (hstop.before b hb'))
      -- Whichever way the items in the middle have been merged, they are in between.
      have haround {items : List α} (hitems : items.Pairwise (Side.low.Before key))
          (hp : items.Perm (xs.drop start ++ inside)) :
          (xs.take start ++ items ++ beyond).Pairwise (Side.low.Before key) :=
        pairwise_between hxs.take hitems hys.drop
          (fun a ha => Side.before_of_first (hstart.before a ha)) hbeyond
          (fun x hx => hoverlap.between x (hp.mem_iff.1 hx)) (le_of_lt (hoverlap.behind last hmem))
      constructor
      · exact (hoverlap.low.yields _ _).mono fun r hr =>
          haround (hoverlap.pairwise_low hr.1 hr.2) (perm_low hr.2)
      · exact ((hoverlap.high hlast).yields _ _).mono fun r hr =>
          haround (hoverlap.pairwise_high hlast hr.1 hr.2) (perm_high hlast hr.2)

end

/-! ## Items are of one class -/

/-- Items of one class. -/
def Uniform (cls : α → κ) (xs : List α) : Prop := ∀ x ∈ xs, ∀ y ∈ xs, cls x = cls y

/-- Only items of one class are compared without failing. -/
def Respects (lt : α → α → Except ε Bool) (cls : α → κ) : Prop :=
  ∀ x y b, lt x y = .ok b → cls x = cls y

variable {cls : α → κ} {xs ys : List α}

theorem Uniform.subset (h : Uniform cls ys) (hs : xs ⊆ ys) : Uniform cls xs :=
  fun x hx y hy => h x (hs hx) y (hs hy)

/-- Two lists are of the same class if an item of one is of the class of one of the other. -/
theorem Uniform.append {x y : α} (hxs : Uniform cls xs) (hys : Uniform cls ys) (hx : x ∈ xs)
    (hy : y ∈ ys) (h : cls x = cls y) : Uniform cls (xs ++ ys) := by
  have hall : ∀ z ∈ xs ++ ys, cls z = cls x := by
    intro z hz
    rcases List.mem_append.1 hz with hz | hz
    · exact hxs z hz x hx
    · exact (hys z hz y hy).trans h.symm
  exact fun z hz w hw => (hall z hz).trans (hall w hw).symm

theorem firstNext_eq_ok {x y : α} {b : Bool} (h : side.firstNext lt x y = .ok b) :
    ∃ b', lt y x = .ok b' := by
  cases side with
  | low =>
    obtain ⟨b', hb', -⟩ := map_eq_ok.1 h
    exact ⟨b', hb'⟩
  | high => exact ⟨b, h⟩

/-- Runs that are each of one class are of the same one if they are joined. -/
theorem uniform_join (hlt : Respects lt cls) (patience : Nat) (hxs : Uniform cls xs)
    (hys : Uniform cls ys) :
    Yields True (fun _ => Uniform cls (xs ++ ys)) (join lt patience xs ys) := by
  cases ys with
  | nil =>
    rw [List.append_nil]
    exact (Yields.trivial _).mono fun _ _ => hxs
  | cons y ys =>
    cases xs with
    | nil => exact (Yields.trivial _).mono fun _ _ => hys
    | cons x xs =>
      rw [join]
      refine (asks_gallop .low (fun x => Side.low.firstNext lt x y) x xs).bind fun n hn => ?_
      obtain ⟨b, hb⟩ := hn
      obtain ⟨b', hb'⟩ := firstNext_eq_ok hb
      have hcls := (hlt y x b' hb').symm
      exact (Yields.trivial _).mono fun _ _ =>
        hxs.append hys List.mem_cons_self List.mem_cons_self hcls

end Heptad.Sorting
