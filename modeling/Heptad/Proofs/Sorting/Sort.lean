import Mathlib.Data.List.Nodup
import Heptad.Proofs.Sorting.Runs

/-!
# What is sorted

A sort cuts its list into runs, extends them item by item and joins them. What each of
these steps keeps (`Keeps`) is so of the sorted list as well, and this has the items that
were to be sorted. Two things are kept: the order of the items, if the comparison goes by
their keys, and their class, if it fails between different ones.

* `Keeps.yields`: from the steps to the sort;
* `exists_sort?`: a list is sorted by its keys;
* `uniform_of_sort?`: what has been sorted is of one class;
* `sort?_eq_of_perm`: lists of the same items, with keys all of which differ, are sorted
  into the same list.
-/

namespace Heptad

namespace Sorting

variable {α ε κ : Type} {lt : α → α → Except ε Bool} {mayFail : Prop} {P : List α → Prop}
  {all : List α}

/-! ## From the steps to the sort -/

theorem sortOnto_of_error {total patience : Nat} {waiting : List (Waiting α)} {x : α}
    {rest : List α} {e : ε} (h : nextRun lt (leastRun total) x rest = .error e) :
    sortOnto lt total patience waiting (x :: rest) = .error e := by
  rw [sortOnto]
  split
  · rename_i e' h'
    rw [h] at h'
    cases h'
    rfl
  · rename_i h'
    rw [h] at h'
    cases h'

theorem sortOnto_of_ok {total patience : Nat} {waiting : List (Waiting α)} {x : α}
    {rest run after : List α} (h : nextRun lt (leastRun total) x rest = .ok (run, after)) :
    sortOnto lt total patience waiting (x :: rest) = (do
      let (waiting, patience) ← add lt total patience run waiting
      sortOnto lt total patience waiting after) := by
  rw [sortOnto]
  split
  · rename_i h'
    rw [h] at h'
    cases h'
  · rename_i h'
    rw [h] at h'
    cases h'
    rfl

/-- A property of lists that the steps of a sort keep, on some items. -/
structure Keeps (lt : α → α → Except ε Bool) (all : List α) (mayFail : Prop)
    (P : List α → Prop) : Prop where
  nil : P []
  natural {x : α} {rest : List α} : x :: rest ⊆ all →
    Yields mayFail (fun r => P r.1) (natural lt x rest)
  place {x : α} {sorted : List α} : x :: sorted ⊆ all → P sorted →
    Yields mayFail P (place lt x sorted)
  join {patience : Nat} {xs ys : List α} : xs ++ ys ⊆ all → P xs → P ys →
    Yields mayFail (fun r => P r.1) (join lt patience xs ys)

/-- The items of the runs that wait. -/
def held (waiting : List (Waiting α)) : List α := waiting.flatMap Waiting.items

theorem held_cons (run : Waiting α) (waiting : List (Waiting α)) :
    held (run :: waiting) = run.items ++ held waiting := List.flatMap_cons

/-- The property holds of every run that waits. -/
def Each (P : List α → Prop) (waiting : List (Waiting α)) : Prop := ∀ run ∈ waiting, P run.items

namespace Keeps

variable {xs ys sorted rest : List α} {waiting others : List (Waiting α)} {latest : Waiting α}

theorem placeAll (h : Keeps lt all mayFail P) (hall : sorted ++ xs ⊆ all) (hsorted : P sorted) :
    Yields mayFail (fun ys => P ys ∧ ys.Perm (sorted ++ xs)) (placeAll lt sorted xs) := by
  induction xs generalizing sorted with
  | nil => exact ⟨hsorted, by rw [List.append_nil]⟩
  | cons x xs ih =>
    have hmiddle : (x :: sorted ++ xs).Perm (sorted ++ x :: xs) := List.perm_middle.symm
    have hx : x :: sorted ⊆ all :=
      List.Subset.trans (List.subset_append_left _ xs) (List.Subset.trans hmiddle.subset hall)
    rw [Sorting.placeAll]
    refine ((h.place hx hsorted).and (perm_place lt x sorted)).bind fun placed hplaced => ?_
    have hp : (placed ++ xs).Perm (sorted ++ x :: xs) := (hplaced.2.append_right xs).trans hmiddle
    exact (ih (List.Subset.trans hp.subset hall) hplaced.1).mono fun ys hys =>
      ⟨hys.1, hys.2.trans hp⟩

theorem nextRun (h : Keeps lt all mayFail P) (least : Nat) {x : α} (hall : x :: rest ⊆ all) :
    Yields mayFail (fun r => P r.1 ∧ (r.1 ++ r.2).Perm (x :: rest)) (nextRun lt least x rest) := by
  rw [Sorting.nextRun]
  cases hn : Sorting.natural lt x rest with
  | error e =>
    have hfails := h.natural hall
    rw [hn] at hfails
    exact hfails
  | ok found =>
    obtain ⟨run, after⟩ := found
    have hrun : P run := (h.natural hall).of_ok hn
    have hp : (run ++ after).Perm (x :: rest) := (perm_natural lt x rest).of_ok hn
    dsimp only
    have htake : run ++ after.take (least - run.length) ⊆ all :=
      List.Subset.trans ((List.take_sublist _ _).append_left run).subset
        (List.Subset.trans hp.subset hall)
    refine (h.placeAll htake hrun).map fun ys hys => ⟨hys.1, ?_⟩
    have hdrop := hys.2.append_right (after.drop (least - run.length))
    rw [List.append_assoc run, List.take_append_drop] at hdrop
    exact hdrop.trans hp

/-- Two runs that are joined keep the property and their items. -/
theorem joined (h : Keeps lt all mayFail P) (patience : Nat) (hall : xs ++ ys ⊆ all) (hxs : P xs)
    (hys : P ys) :
    Yields mayFail (fun r => P r.1 ∧ r.1.Perm (xs ++ ys)) (Sorting.join lt patience xs ys) :=
  (h.join hall hxs hys).and (perm_join lt patience xs ys)

theorem collapse (h : Keeps lt all mayFail P) (level patience : Nat)
    (hall : held (latest :: others) ⊆ all) (heach : Each P (latest :: others)) :
    Yields mayFail (fun r => Each P (r.1 :: r.2.1) ∧
        (held (r.1 :: r.2.1)).Perm (held (latest :: others)))
      (collapse lt level patience latest others) := by
  induction others generalizing latest patience with
  | nil => exact ⟨heach, .refl _⟩
  | cons before others ih =>
    rw [Sorting.collapse]
    split
    · obtain ⟨hlatest, hbefore, hothers⟩ :=
        (List.forall_mem_cons.1 heach).imp_right List.forall_mem_cons.1
      have hpair : (before.items ++ latest.items ++ held others).Perm
          (held (latest :: before :: others)) := by
        rw [held_cons, held_cons, List.append_assoc]
        exact List.perm_append_comm_assoc _ _ _
      have hsub := List.Subset.trans hpair.subset hall
      refine (h.joined patience (List.append_subset.1 hsub).1 hbefore hlatest).bind fun r hr => ?_
      have hjoined : (held (⟨r.1, before.level⟩ :: others)).Perm
          (held (latest :: before :: others)) := by
        rw [held_cons]
        exact (hr.2.append_right _).trans hpair
      exact (ih r.2 (List.Subset.trans hjoined.subset hall)
        (List.forall_mem_cons.2 ⟨hr.1, hothers⟩)).mono fun r hr => ⟨hr.1, hr.2.trans hjoined⟩
    · exact ⟨heach, .refl _⟩

theorem joinAll (h : Keeps lt all mayFail P) (patience : Nat) (hall : xs ++ held waiting ⊆ all)
    (hxs : P xs) (heach : Each P waiting) :
    Yields mayFail (fun ys => P ys ∧ ys.Perm (xs ++ held waiting))
      (joinAll lt patience xs waiting) := by
  induction patience, xs, waiting using joinAll.induct with
  | case1 patience xs =>
    rw [Sorting.joinAll]
    exact ⟨hxs, by rw [held, List.flatMap_nil, List.append_nil]⟩
  | case2 patience xs first =>
    have hpair : (first.items ++ xs).Perm (xs ++ held [first]) := by
      rw [held_cons, held, List.flatMap_nil, List.append_nil]
      exact List.perm_append_comm
    have hsub := List.Subset.trans hpair.subset hall
    rw [Sorting.joinAll]
    exact (h.joined patience hsub (heach first List.mem_cons_self) hxs).bind fun r hr =>
      ⟨hr.1, hr.2.trans hpair⟩
  | case3 patience xs before further others hshort ih =>
    obtain ⟨hbefore, hfurther, hothers⟩ :=
      (List.forall_mem_cons.1 heach).imp_right List.forall_mem_cons.1
    have hpair : (xs ++ (further.items ++ before.items ++ held others)).Perm
        (xs ++ held (before :: further :: others)) := by
      rw [held_cons, held_cons, List.append_assoc]
      exact (List.perm_append_comm_assoc _ _ _).append_left xs
    have hsub := List.Subset.trans hpair.subset hall
    have hmiddle := (List.append_subset.1 (List.append_subset.1 hsub).2).1
    rw [Sorting.joinAll, if_pos hshort]
    refine (h.joined patience hmiddle hfurther hbefore).bind fun r hr => ?_
    have hjoined : (xs ++ held (⟨r.1, further.level⟩ :: others)).Perm
        (xs ++ held (before :: further :: others)) := by
      rw [held_cons]
      exact ((hr.2.append_right _).append_left xs).trans hpair
    exact (ih r.1 r.2 (List.Subset.trans hjoined.subset hall) hxs
      (List.forall_mem_cons.2 ⟨hr.1, hothers⟩)).mono fun ys hys => ⟨hys.1, hys.2.trans hjoined⟩
  | case4 patience xs before further others hshort ih =>
    obtain ⟨hbefore, hrest⟩ := List.forall_mem_cons.1 heach
    have hpair : (before.items ++ xs ++ held (further :: others)).Perm
        (xs ++ held (before :: further :: others)) := by
      rw [held_cons before, List.append_assoc]
      exact List.perm_append_comm_assoc _ _ _
    have hsub := List.Subset.trans hpair.subset hall
    rw [Sorting.joinAll, if_neg hshort]
    refine (h.joined patience (List.append_subset.1 hsub).1 hbefore hxs).bind fun r hr => ?_
    have hjoined := (hr.2.append_right (held (further :: others))).trans hpair
    exact (ih r.1 r.2 (List.Subset.trans hjoined.subset hall) hr.1 hrest).mono fun ys hys =>
      ⟨hys.1, hys.2.trans hjoined⟩

theorem add (h : Keeps lt all mayFail P) (total patience : Nat)
    (hall : xs ++ held waiting ⊆ all) (hxs : P xs) (heach : Each P waiting) :
    Yields mayFail (fun r => Each P r.1 ∧ (held r.1).Perm (xs ++ held waiting))
      (add lt total patience xs waiting) := by
  cases waiting with
  | nil => exact ⟨fun run hrun => List.mem_singleton.1 hrun ▸ hxs, .refl _⟩
  | cons latest others =>
    rw [Sorting.add]
    refine (h.collapse _ _ (List.append_subset.1 hall).2 heach).bind fun r hr => ?_
    refine ⟨List.forall_mem_cons.2 ⟨hxs, hr.1⟩, ?_⟩
    rw [held_cons]
    exact hr.2.append_left xs

theorem sortOnto (h : Keeps lt all mayFail P) (total patience : Nat)
    (hall : held waiting ++ xs ⊆ all) (heach : Each P waiting) :
    Yields mayFail (fun ys => P ys ∧ ys.Perm (held waiting ++ xs))
      (sortOnto lt total patience waiting xs) := by
  induction patience, waiting, xs using sortOnto.induct lt total with
  | case1 patience =>
    rw [Sorting.sortOnto]
    exact ⟨h.nil, .refl _⟩
  | case2 patience latest others =>
    rw [Sorting.sortOnto, List.append_nil]
    rw [List.append_nil] at hall
    obtain ⟨hlatest, hothers⟩ := List.forall_mem_cons.1 heach
    exact h.joinAll patience hall hlatest hothers
  | case3 patience waiting x rest e hrun =>
    have hfails := h.nextRun (leastRun total) (List.append_subset.1 hall).2
    rw [hrun] at hfails
    rw [sortOnto_of_error hrun]
    exact hfails
  | case4 patience waiting x rest run after hrun ih =>
    obtain ⟨hP, hp⟩ := (h.nextRun (leastRun total) (List.append_subset.1 hall).2).of_ok hrun
    have hparts : (run ++ held waiting ++ after).Perm (held waiting ++ x :: rest) := by
      refine (List.Perm.append_right after List.perm_append_comm).trans ?_
      rw [List.append_assoc]
      exact hp.append_left (held waiting)
    have hsub := List.Subset.trans hparts.subset hall
    rw [sortOnto_of_ok hrun]
    refine (h.add total patience (List.append_subset.1 hsub).1 hP heach).bind fun r hr => ?_
    have hadded := (hr.2.append_right after).trans hparts
    exact (ih r.1 r.2 (List.Subset.trans hadded.subset hall) hr.1).mono fun ys hys =>
      ⟨hys.1, hys.2.trans hadded⟩

/-- What the steps keep is so of a sorted list. -/
theorem yields (h : Keeps lt all mayFail P) :
    Yields mayFail (fun ys => P ys ∧ ys.Perm all) (sort? lt all) :=
  h.sortOnto _ _ (List.Subset.refl all) nofun

end Keeps

/-! ## Sorted by keys -/

section

variable [LinearOrder κ] {key : α → κ}

theorem keeps_order (hlt : ComparesBy lt key all) :
    Keeps lt all False fun xs => xs.Pairwise (Side.low.Before key) where
  nil := List.Pairwise.nil
  natural hall := pairwise_natural (hlt.mono hall)
  place hall hsorted := pairwise_place (hlt.mono hall) hsorted
  join hall hxs hys := pairwise_join _ (hlt.mono hall) hxs hys

/-- A list is sorted if the comparison goes by the keys of its items. -/
theorem exists_sort? (hlt : ComparesBy lt key all) :
    ∃ ys, sort? lt all = .ok ys ∧ (ys.Pairwise fun x y => key x ≤ key y) ∧ ys.Perm all := by
  obtain ⟨ys, h, hpairwise, hp⟩ := yields_false_iff.1 (keeps_order hlt).yields
  exact ⟨ys, h, hpairwise, hp⟩

/-- Lists of the same items, with keys all of which differ, are sorted into the same list. -/
theorem sort?_eq_of_perm {xs ys : List α} (hp : xs.Perm ys) (hlt : ComparesBy lt key xs)
    (hkey : (xs.map key).Nodup) : sort? lt xs = sort? lt ys := by
  obtain ⟨as, has, horder, hpas⟩ := exists_sort? hlt
  obtain ⟨bs, hbs, horder', hpbs⟩ := exists_sort? (hlt.mono hp.symm.subset)
  have hantisymm : ∀ a b, a ∈ as → b ∈ bs → key a ≤ key b → key b ≤ key a → a = b :=
    fun a b ha hb hab hba => List.inj_on_of_nodup_map hkey (hpas.subset ha)
      (hp.symm.subset (hpbs.subset hb)) (le_antisymm hab hba)
  rw [has, hbs, (hpas.trans (hp.trans hpbs.symm)).eq_of_pairwise hantisymm horder horder']

end

/-! ## Sorted within a class -/

theorem keeps_class {cls : α → κ} (hlt : Respects lt cls) (all : List α) :
    Keeps lt all True (Uniform cls) where
  nil := nofun
  natural _ := uniform_natural hlt _ _
  place _ hsorted := by
    refine ((uniform_place hlt _ hsorted).and (perm_place lt _ _)).mono fun ys hys => ?_
    exact hys.1.subset hys.2.subset
  join _ hxs hys := by
    refine ((uniform_join hlt _ hxs hys).and (perm_join lt _ _ _)).mono fun r hr => ?_
    exact hr.1.subset hr.2.subset

/-- A list that is sorted by a comparison that fails between items of different classes
    is of one class, and keeps its items. -/
theorem uniform_of_sort? {cls : α → κ} {xs ys : List α} (hlt : Respects lt cls)
    (h : sort? lt xs = .ok ys) : Uniform cls xs ∧ ys.Perm xs := by
  obtain ⟨hys, hp⟩ := (keeps_class hlt xs).yields.of_ok h
  exact ⟨hys.subset hp.symm.subset, hp⟩

end Sorting

end Heptad
