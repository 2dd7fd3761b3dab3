import Heptad.Failure

/-!
# Ends of a command

A command either prints a text, or stops: with a status because of its
arguments, or with the failure of something it ran.
-/

namespace Heptad.Command

/-- How a command stops without a text. -/
inductive Exit where
  | status (n : Nat)
  | failure (f : Failure)

/-- What a command comes to. -/
abbrev Report := Except Exit String

/-- Lines as a text. -/
def lines (ls : List String) : String := String.join (ls.map (· ++ "\n"))

/-- The rule above and below a heading. -/
def rule : String := String.ofList (List.replicate 70 '=')

/-- A heading between rules, and an empty line. -/
def heading (title : String) : List String := [rule, title, rule, ""]

/-- A text filled up with blanks on the right. -/
def padRight (width : Nat) (s : String) : String :=
  s ++ String.ofList (List.replicate (width - s.length) ' ')

/-- A text filled up with blanks on the left. -/
def padLeft (width : Nat) (s : String) : String :=
  String.ofList (List.replicate (width - s.length) ' ') ++ s

end Heptad.Command
