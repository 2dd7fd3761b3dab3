/-!
# Searching a sorted list

A test holds of the items at the start of a list and fails of the others; how
many are those of which it holds? `bisect` halves the list over and over again,
`gallop` first looks at items further and further away from the start and then
halves the stretch between the last two of them. The test may itself fail, so
which items it is asked about is part of the behaviour.

A list may be given backwards, from its *high* end. The item in the middle is
then still the one that would be taken from the *low* end.
-/

namespace Heptad.Sorting

/-- An end of a sorted list. -/
inductive Side where
  | low
  | high
  deriving DecidableEq

/-- The place of the middle of `n` items, counted from one end; of two middle
    ones it is the higher. -/
def Side.middle : Side → Nat → Nat
  | low, n => n / 2
  | high, n => (n - 1) / 2

section

variable {α ε : Type}

/-- The number of items at the start of which a test holds, found by halving. -/
def bisect (side : Side) (test : α → Except ε Bool) (xs : List α) : Except ε Nat :=
  let middle := side.middle xs.length
  match _h : xs.drop middle with
  | [] => .ok 0
  | x :: after => do
    if ← test x then return (← bisect side test after) + middle + 1
    else bisect side test (xs.take middle)
termination_by xs.length
decreasing_by
  · have := congrArg List.length _h
    simp only [List.length_drop, List.length_cons] at this
    omega
  · have := congrArg List.length _h
    simp only [List.length_drop, List.length_cons] at this
    simp only [List.length_take]
    omega

/-- The number of items at the start of which a test holds, looking next at the
    item behind `skip` others, and then each time twice as far and one more. -/
def widen (side : Side) (test : α → Except ε Bool) (skip : Nat) (xs : List α) :
    Except ε Nat :=
  match _h : xs.drop skip with
  | [] => bisect side test xs
  | x :: after => do
    if ← test x then return (← widen side test (2 * skip + 1) after) + skip + 1
    else bisect side test (xs.take skip)
termination_by xs.length
decreasing_by
  have := congrArg List.length _h
  simp only [List.length_drop, List.length_cons] at this
  omega

/-- The number of items at the start of which a test holds, found by galloping. -/
def gallop (side : Side) (test : α → Except ε Bool) : List α → Except ε Nat
  | [] => .ok 0
  | x :: xs => do
    if ← test x then return (← widen side test 0 xs) + 1 else return 0

end

end Heptad.Sorting
