import Heptad.Sorting.Search

/-!
# Merging two runs

Two sorted runs that follow each other become one. The start of the first run
and the end of the second that are in place already are found by galloping and
left alone. The rest is merged from the side of the shorter run: from the low
side the lesser item comes next, from the high side the greater, and of equal
ones always the one that keeps the items in their order. An item of the second
run is the left operand of every comparison.

At first every item costs a comparison. When one run has given as many items in
a row as the *patience* asks for, the merge takes whole stretches by galloping,
for as long as they are long. Patience falls while this goes on and rises when
it ends, from one merge to the next.
-/

namespace Heptad.Sorting

/-- The length from which on a stretch is long. -/
def longStretch : Nat := 7

/-- How a merge finds what comes next. -/
inductive Pace where
  /-- By one comparison for each item; so many items in a row came from the
      first run, or from the second. -/
  | single (first second : Nat)
  /-- By galloping through the first run. -/
  | first
  /-- By galloping through the second run, after a stretch of the first. -/
  | second (stretch : Nat)

/-- The pace after so many items in a row, which is kept while there is patience. -/
def Pace.after (patience first second : Nat) : Pace :=
  if patience ≤ first ∨ patience ≤ second then .first else .single first second

namespace Side

variable {α ε : Type}

/-- Whether an item of the first run comes before one of the second. -/
def firstNext (side : Side) (lt : α → α → Except ε Bool) (x y : α) : Except ε Bool :=
  match side with
  | low => (lt y x).map (!·)
  | high => lt y x

/-- Whether an item of the second run comes before one of the first. -/
def secondNext (side : Side) (lt : α → α → Except ε Bool) (x y : α) : Except ε Bool :=
  (side.firstNext lt x y).map (!·)

/-- Whether the rest of a merge is settled: a run is used up, or only the item
    is left of which it is known that it comes last. -/
def settled : Side → List α → List α → Bool
  | low, xs, ys => xs.tail.isEmpty || ys.isEmpty
  | high, xs, ys => xs.isEmpty || ys.tail.isEmpty

/-- The rest of a merge that is settled. -/
def rest : Side → List α → List α → List α
  | low, xs, ys => ys ++ xs
  | high, xs, ys => xs ++ ys

end Side

section

variable {α ε : Type}

/-- The merge of two runs given from a side, and the patience afterwards. -/
def merge (lt : α → α → Except ε Bool) (side : Side) (pace : Pace) (patience : Nat) :
    List α → List α → Except ε (List α × Nat)
  | x :: xs, y :: ys =>
    if side.settled (x :: xs) (y :: ys) then .ok (side.rest (x :: xs) (y :: ys), patience)
    else
      match pace with
      | .single first second => do
        if ← side.firstNext lt x y then
          let (merged, patience) ←
            merge lt side (.after patience (first + 1) 0) patience xs (y :: ys)
          return (x :: merged, patience)
        else
          let (merged, patience) ←
            merge lt side (.after patience 0 (second + 1)) patience (x :: xs) ys
          return (y :: merged, patience)
      | .first => do
        let n ← gallop side (fun x => side.firstNext lt x y) (x :: xs)
        -- behind the stretch comes the item it was measured by
        let (merged, patience) ←
          merge lt side (.second n) patience ((x :: xs).drop n) ys
        return ((x :: xs).take n ++ y :: merged, patience)
      | .second stretch => do
        let n ← gallop side (fun y => side.secondNext lt x y) (y :: ys)
        let left := (y :: ys).drop n
        -- a merge that is settled here leaves the patience as it is
        let (pace, patience) :=
          if side.settled xs left then (.first, patience)
          else if longStretch ≤ stretch ∨ longStretch ≤ n then (.first, max 1 (patience - 1))
          else (.single 0 0, patience + 1)
        let (merged, patience) ← merge lt side pace patience xs left
        return ((y :: ys).take n ++ x :: merged, patience)
  | xs, ys => .ok (side.rest xs ys, patience)
termination_by xs ys => xs.length + ys.length
decreasing_by all_goals simp only [List.length_drop, List.length_cons]; omega

/-- Two runs that follow each other as one, and the patience afterwards. -/
def join (lt : α → α → Except ε Bool) (patience : Nat) (xs ys : List α) :
    Except ε (List α × Nat) :=
  match ys with
  | [] => .ok (xs, patience)
  | y :: _ => do
    let start ← gallop .low (fun x => Side.low.firstNext lt x y) xs
    match (xs.drop start).reverse with
    | [] => return (xs ++ ys, patience)
    | last :: before =>
      let stop ← gallop .high (fun y => Side.high.secondNext lt last y) ys.reverse
      let inside := ys.take (ys.length - stop)
      -- the item that comes first from the side of the merge is known
      let (merged, patience) ←
        if before.length < inside.length then do
          let (merged, patience) ←
            merge lt .low (.single 0 0) patience (xs.drop start) inside.tail
          pure (inside.take 1 ++ merged, patience)
        else do
          let (merged, patience) ←
            merge lt .high (.single 0 0) patience before inside.reverse
          pure ((last :: merged).reverse, patience)
      return (xs.take start ++ merged ++ ys.drop (ys.length - stop), patience)

end

end Heptad.Sorting
