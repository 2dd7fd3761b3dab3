import Heptad.Sorting.Merge

/-!
# Sorting with a comparison that may fail

When two keys cannot be compared, which pair is met first decides how sorting
fails, so the comparisons are part of the behaviour.

A list is cut into *runs*, starts of what is left that already rise, or strictly
fall and are turned around. A run that is too short is extended by placing
further items into it. Runs wait until they are joined with a neighbour. Between
two neighbours there is a *boundary*, with a level that tells how deep it lies
when the list is halved again and again: before a run is added, all boundaries
deeper than the one in front of it are removed.
-/

namespace Heptad

-- Powers and sums of naturals are those of the core library, whatever else is imported.
attribute [local instance (high)] instPowNat Zero.ofOfNat0

namespace Sorting

section

variable {α ε : Type}

/-! ## Runs -/

/-- An item placed into a sorted list, behind the items it does not precede. -/
def place (lt : α → α → Except ε Bool) (x : α) (sorted : List α) : Except ε (List α) := do
  let n ← bisect .low (fun y => Side.low.firstNext lt y x) sorted
  return sorted.take n ++ x :: sorted.drop n

/-- The items one after the other placed into a sorted list. -/
def placeAll (lt : α → α → Except ε Bool) (sorted : List α) : List α → Except ε (List α)
  | [] => .ok sorted
  | x :: rest => do placeAll lt (← place lt x sorted) rest

/-- The longest start of a list in which each item falls below the one before
    it, or does not, and what follows. -/
def takeRun (lt : α → α → Except ε Bool) (falling : Bool) (before : α) :
    List α → Except ε (List α × List α)
  | [] => .ok ([], [])
  | x :: rest =>
    match lt x before with
    | .error e => .error e
    | .ok falls =>
      if falls = falling then
        (takeRun lt falling x rest).map fun (run, after) => (x :: run, after)
      else .ok ([], x :: rest)

/-- The run a list starts with, sorted, and what follows. -/
def natural (lt : α → α → Except ε Bool) (x : α) : List α → Except ε (List α × List α)
  | [] => .ok ([x], [])
  | y :: rest =>
    match lt y x with
    | .error e => .error e
    | .ok falling =>
      (takeRun lt falling y rest).map fun (run, after) =>
        (if falling then (x :: y :: run).reverse else x :: y :: run, after)

/-- The least length of a run in a list of `n` items: all of them, or between 32
    and 64 so that about a power of two of runs fills the list. -/
def leastRun (n : Nat) : Nat :=
  let size := 2 ^ (n.log2 - 5)
  (n + size - 1) / size

/-- The next run of a list, extended to the least length, and what follows. -/
def nextRun (lt : α → α → Except ε Bool) (least : Nat) (x : α) (rest : List α) :
    Except ε (List α × List α) :=
  match natural lt x rest with
  | .error e => .error e
  | .ok (run, after) =>
    let missing := least - run.length
    (placeAll lt run (after.take missing)).map (·, after.drop missing)

theorem exists_of_map_eq_ok {β γ : Type} {r : Except ε β} {f : β → γ} {c : γ}
    (h : r.map f = .ok c) : ∃ b, r = .ok b ∧ f b = c := by
  cases r with
  | error e => cases h
  | ok b => exact ⟨b, rfl, Except.ok.inj h⟩

theorem length_of_takeRun {lt : α → α → Except ε Bool} {falling : Bool} {before : α}
    {xs run after : List α} (h : takeRun lt falling before xs = .ok (run, after)) :
    after.length ≤ xs.length := by
  induction xs generalizing before run with
  | nil => cases h; exact Nat.le_refl _
  | cons x xs ih =>
    rw [takeRun] at h
    split at h
    · cases h
    · split at h
      · obtain ⟨⟨more, after'⟩, hr, he⟩ := exists_of_map_eq_ok h
        cases he
        exact Nat.le_succ_of_le (ih hr)
      · cases h
        exact Nat.le_refl _

theorem length_of_natural {lt : α → α → Except ε Bool} {x : α} {xs run after : List α}
    (h : natural lt x xs = .ok (run, after)) : after.length ≤ xs.length := by
  cases xs with
  | nil => cases h; exact Nat.le_refl _
  | cons y xs =>
    rw [natural] at h
    split at h
    · cases h
    · obtain ⟨⟨more, after'⟩, hr, he⟩ := exists_of_map_eq_ok h
      cases he
      exact Nat.le_succ_of_le (length_of_takeRun hr)

/-- A run takes at least its first item off a list. -/
theorem length_of_nextRun {lt : α → α → Except ε Bool} {least : Nat} {x : α}
    {xs run after : List α} (h : nextRun lt least x xs = .ok (run, after)) :
    after.length ≤ xs.length := by
  rw [nextRun] at h
  split at h
  · cases h
  · rename_i start more hn
    obtain ⟨extended, _, he⟩ := exists_of_map_eq_ok h
    cases he
    exact Nat.le_trans (List.length_drop ▸ Nat.sub_le _ _) (length_of_natural hn)

/-! ## Joining runs -/

/-- A run that waits, and the level of the boundary in front of it. -/
structure Waiting (α : Type) where
  items : List α
  level : Nat

/-- The level of the boundary between runs of `m` and `n` items behind `before`
    others: the first binary place in which the middles of the two runs differ
    when they are written as fractions of the whole list. -/
def boundary (total before m n : Nat) : Nat :=
  let first := 2 * before + m
  let second := first + m + n
  ((List.range (total.log2 + 2)).find? fun place =>
    first * 2 ^ place / total ≠ second * 2 ^ place / total).getD 0

/-- The latest run joined with those before it while the boundary in front of
    it is deeper than a level, with the runs still waiting and the patience. -/
def collapse (lt : α → α → Except ε Bool) (level patience : Nat) (latest : Waiting α) :
    List (Waiting α) → Except ε (Waiting α × List (Waiting α) × Nat)
  | [] => .ok (latest, [], patience)
  | before :: others =>
    if level < latest.level then do
      let (items, patience) ← join lt patience before.items latest.items
      collapse lt level patience ⟨items, before.level⟩ others
    else .ok (latest, before :: others, patience)

/-- The latest run joined with all before it. Of the two boundaries in front
    the further one goes first if the run beyond it is shorter than the latest. -/
def joinAll (lt : α → α → Except ε Bool) (patience : Nat) (latest : List α) :
    List (Waiting α) → Except ε (List α)
  | [] => .ok latest
  | [first] => do
    let (items, _) ← join lt patience first.items latest
    return items
  | before :: further :: others =>
    if further.items.length < latest.length then do
      let (items, patience) ← join lt patience further.items before.items
      joinAll lt patience latest (⟨items, further.level⟩ :: others)
    else do
      let (items, patience) ← join lt patience before.items latest
      joinAll lt patience items (further :: others)
termination_by runs => runs.length

/-- A run added to those that wait, the latest first. -/
def add (lt : α → α → Except ε Bool) (total patience : Nat) (items : List α) :
    List (Waiting α) → Except ε (List (Waiting α) × Nat)
  | [] => .ok ([⟨items, 0⟩], patience)
  | latest :: others => do
    let before := (others.map fun run => run.items.length).sum
    let level := boundary total before latest.items.length items.length
    let (latest, others, patience) ← collapse lt level patience latest others
    return (⟨items, level⟩ :: latest :: others, patience)

/-- What is left of a list sorted, together with the runs that wait. -/
def sortOnto (lt : α → α → Except ε Bool) (total patience : Nat) (waiting : List (Waiting α)) :
    List α → Except ε (List α)
  | [] =>
    match waiting with
    | [] => .ok []
    | latest :: others => joinAll lt patience latest.items others
  | x :: xs =>
    match _h : nextRun lt (leastRun total) x xs with
    | .error e => .error e
    | .ok (run, after) => do
      let (waiting, patience) ← add lt total patience run waiting
      sortOnto lt total patience waiting after
termination_by xs => xs.length
decreasing_by
  have := length_of_nextRun _h
  simp only [List.length_cons]
  omega

end

end Sorting

/-- A list sorted by a comparison that may fail. -/
def sort? {α ε : Type} (lt : α → α → Except ε Bool) (xs : List α) : Except ε (List α) :=
  Sorting.sortOnto lt xs.length Sorting.longStretch [] xs

end Heptad
