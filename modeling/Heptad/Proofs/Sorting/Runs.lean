import Heptad.Proofs.Sorting.Merge
import Heptad.Sorting.Runs

/-!
# Runs

A list starts with a run, which is extended by placing further items into it. Both keep
the items; if the comparison goes by keys then the run is in order and nothing fails, and
if it fails between different classes then the run is of one class.

* `perm_natural`, `pairwise_natural`, `uniform_natural`: the run a list starts with;
* `perm_place`, `pairwise_place`, `uniform_place`: a run with an item placed into it.
-/

namespace Heptad.Sorting

variable {α ε κ : Type} {lt : α → α → Except ε Bool} {x y : α} {xs rest sorted : List α}

/-! ## Items are kept -/

theorem append_takeRun (lt : α → α → Except ε Bool) (falling : Bool) (before : α) (xs : List α) :
    Yields True (fun r => r.1 ++ r.2 = xs) (takeRun lt falling before xs) := by
  induction xs generalizing before with
  | nil => exact rfl
  | cons x rest ih =>
    rw [takeRun]
    cases lt x before with
    | error e => exact trivial
    | ok falls =>
      dsimp only
      split
      · exact (ih x).map fun r hr => congrArg (x :: ·) hr
      · exact rfl

theorem perm_natural (lt : α → α → Except ε Bool) (x : α) (rest : List α) :
    Yields True (fun r => (r.1 ++ r.2).Perm (x :: rest)) (natural lt x rest) := by
  cases rest with
  | nil => exact .refl _
  | cons y rest =>
    rw [natural]
    cases lt y x with
    | error e => exact trivial
    | ok falling =>
      refine (append_takeRun lt falling y rest).map fun r hr => ?_
      rw [← hr]
      cases falling with
      | true => exact (List.reverse_perm _).append_right r.2
      | false => exact .refl _

theorem perm_place (lt : α → α → Except ε Bool) (x : α) (sorted : List α) :
    Yields True (fun ys => ys.Perm (x :: sorted)) (place lt x sorted) := by
  refine (Yields.trivial _).bind fun n _ => ?_
  have hp : (sorted.take n ++ x :: sorted.drop n).Perm (x :: (sorted.take n ++ sorted.drop n)) :=
    List.perm_middle
  rwa [List.take_append_drop] at hp

/-! ## Items are put in order -/

section

variable [LinearOrder κ] {key : α → κ}

/-- The side from which a run is in order that falls, or does not. -/
def sideOf (falling : Bool) : Side := if falling then .high else .low

theorem before_of_lt {falling : Bool} (h : lt y x = .ok (decide (key y < key x)))
    (hfalling : lt y x = .ok falling) : (sideOf falling).Before key x y := by
  obtain rfl := Except.ok.inj (hfalling.symm.trans h)
  by_cases hlt : key y < key x
  · rw [decide_eq_true hlt]
    exact le_of_lt hlt
  · rw [decide_eq_false hlt]
    exact not_lt.1 hlt

/-- An item stands in front of others in order if it comes before the first one. -/
theorem pairwise_cons_of_before {side : Side} (hxy : side.Before key x y)
    (h : (y :: xs).Pairwise (side.Before key)) : (x :: y :: xs).Pairwise (side.Before key) := by
  refine List.pairwise_cons.2 ⟨fun z hz => ?_, h⟩
  rcases List.mem_cons.1 hz with rfl | hz
  · exact hxy
  · exact hxy.trans (List.rel_of_pairwise_cons h hz)

theorem pairwise_takeRun (falling : Bool) (hlt : ComparesBy lt key (y :: xs)) :
    Yields False (fun r => (y :: r.1).Pairwise ((sideOf falling).Before key))
      (takeRun lt falling y xs) := by
  induction xs generalizing y with
  | nil => exact List.pairwise_singleton _ _
  | cons x rest ih =>
    have hx : lt x y = .ok (decide (key x < key y)) := hlt x (by simp) y List.mem_cons_self
    rw [takeRun, hx]
    dsimp only
    split
    · rename_i hfalls
      have hbefore := before_of_lt hx (hfalls ▸ hx)
      exact (ih (hlt.mono (List.subset_cons_self _ _))).map fun r hr =>
        pairwise_cons_of_before hbefore hr
    · exact List.pairwise_singleton _ _

theorem pairwise_natural (hlt : ComparesBy lt key (x :: rest)) :
    Yields False (fun r => r.1.Pairwise (Side.low.Before key)) (natural lt x rest) := by
  cases rest with
  | nil => exact List.pairwise_singleton _ _
  | cons y rest =>
    have hy : lt y x = .ok (decide (key y < key x)) := hlt y (by simp) x List.mem_cons_self
    rw [natural, hy]
    dsimp only
    refine (pairwise_takeRun _ (hlt.mono (List.subset_cons_self _ _))).map fun r hr => ?_
    have hrun := pairwise_cons_of_before (before_of_lt hy hy) hr
    cases hfalling : decide (key y < key x) with
    | true =>
      rw [hfalling] at hrun
      exact List.pairwise_reverse.2 hrun
    | false =>
      rw [hfalling] at hrun
      exact hrun

theorem pairwise_place (hlt : ComparesBy lt key (x :: sorted))
    (hsorted : sorted.Pairwise (Side.low.Before key)) :
    Yields False (fun ys => ys.Pairwise (Side.low.Before key)) (place lt x sorted) := by
  have hq : ∀ y ∈ sorted, Side.low.firstNext lt y x = .ok (Side.low.first key y x) := fun y hy =>
    Side.firstNext_eq (hlt x List.mem_cons_self y (List.mem_cons_of_mem x hy))
  obtain ⟨n, hn, hcut⟩ := exists_bisect .low hq (hsorted.imp fun h => Side.first_of_before h)
  rw [place, hn]
  exact Side.pairwise_stretch hsorted.take hsorted.drop
    (fun a ha => Side.before_of_first (hcut.before a ha))
    fun b hb => Side.before_of_not_first (hcut.behind b hb)

end

/-! ## Items are of one class -/

variable {cls : α → κ}

theorem uniform_singleton (cls : α → κ) (x : α) : Uniform cls [x] := by
  intro a ha b hb
  rw [List.mem_singleton.1 ha, List.mem_singleton.1 hb]

theorem Uniform.cons (h : Uniform cls xs) (hy : y ∈ xs) (hxy : cls x = cls y) :
    Uniform cls (x :: xs) :=
  (uniform_singleton cls x).append h List.mem_cons_self hy hxy

theorem uniform_takeRun (hlt : Respects lt cls) (falling : Bool) (y : α) (xs : List α) :
    Yields True (fun r => Uniform cls (y :: r.1)) (takeRun lt falling y xs) := by
  induction xs generalizing y with
  | nil => exact uniform_singleton cls y
  | cons x rest ih =>
    rw [takeRun]
    cases hx : lt x y with
    | error e => exact trivial
    | ok falls =>
      dsimp only
      split
      · exact (ih x).map fun r hr => hr.cons List.mem_cons_self (hlt x y falls hx).symm
      · exact uniform_singleton cls y

theorem uniform_natural (hlt : Respects lt cls) (x : α) (rest : List α) :
    Yields True (fun r => Uniform cls r.1) (natural lt x rest) := by
  cases rest with
  | nil => exact uniform_singleton cls x
  | cons y rest =>
    rw [natural]
    cases hy : lt y x with
    | error e => exact trivial
    | ok falling =>
      refine (uniform_takeRun hlt falling y rest).map fun r hr => ?_
      have hrun := hr.cons List.mem_cons_self (hlt y x falling hy).symm
      cases falling with
      | true => exact hrun.subset (List.reverse_perm _).subset
      | false => exact hrun

theorem uniform_place (hlt : Respects lt cls) (x : α) (hsorted : Uniform cls sorted) :
    Yields True (fun _ => Uniform cls (x :: sorted)) (place lt x sorted) := by
  by_cases hne : sorted = []
  · subst hne
    exact (Yields.trivial _).mono fun _ _ => uniform_singleton cls x
  · refine (asks_bisect .low _ hne).bind fun n hn => ?_
    obtain ⟨y, hy, b, hb⟩ := hn
    obtain ⟨b', hb'⟩ := firstNext_eq_ok hb
    exact hsorted.cons hy (hlt x y b' hb')

end Heptad.Sorting
