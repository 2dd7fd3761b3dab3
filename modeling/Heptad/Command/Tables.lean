import Heptad.Command.Exit
import Heptad.Table.Layout
import Heptad.Table.Rules

/-!
# Printing the tables

The command prints the table of two sides, or with the option `--3d` the one of
three sides. Options of two dashes may be shortened as long as one is meant.
Asking for help stops with status zero, anything not understood with status two.
-/

namespace Heptad.Command.Tables

/-- What an argument means. -/
inductive Argument where
  /-- The option for three sides. -/
  | threeSided
  /-- A request for help. -/
  | help
  /-- An option given a value it does not take. -/
  | refused
  /-- A shortened option that could be several. -/
  | ambiguous
  /-- Anything else. -/
  | stray
  deriving DecidableEq

/-- The options of two dashes. -/
def longOptions : List (List Char × Argument) :=
  [("--help".toList, .help), ("--3d".toList, .threeSided)]

/-- An argument that starts with two dashes. -/
def classifyLong (cs : List Char) : Argument :=
  let name := cs.takeWhile (· ≠ '=')
  match longOptions.filter fun o => name.isPrefixOf o.1 with
  | [] => .stray
  | [(_, meant)] => if cs.contains '=' then .refused else meant
  | _ => .ambiguous

/-- What follows the letter of help in an argument of one dash: nothing, or the
    letter again any number of times, also behind an equals sign. -/
def classifyHelp : List Char → Argument
  | [] => .help
  | ['='] => .refused
  | '=' :: letters | letters => if letters.all (· = 'h') then .help else .refused

/-- The meaning of an argument. -/
def classify (arg : String) : Argument :=
  match arg.toList with
  | '-' :: '-' :: rest => classifyLong ('-' :: '-' :: rest)
  | '-' :: 'h' :: rest => classifyHelp rest
  | _ => .stray

/-- What arguments ask for, going through their meanings in order: whether there
    is to be a table of three sides, or a status to stop with. -/
def resolve (three stray : Bool) : List Argument → Except Exit Bool
  | [] => if stray then .error (.status 2) else .ok three
  | .threeSided :: rest => resolve true stray rest
  | .help :: _ => .error (.status 0)
  | .refused :: _ | .ambiguous :: _ => .error (.status 2)
  | .stray :: rest => resolve three true rest

/-- What arguments ask for. Two dashes end the options, and everything from
    there on is not understood; an ambiguous option is found before any other
    takes effect. -/
def parse (args : List String) : Except Exit Bool :=
  let options := (args.takeWhile (· ≠ "--")).map classify
  if options.contains .ambiguous then .error (.status 2)
  else resolve false (args.contains "--") options

/-- The command. -/
def report (args : List String) : Report := do
  if ← parse args then return lines [Table.standard3.format3 Layout.defaultWidth]
  else return lines [Table.standard2.format2 Layout.defaultWidth]

end Heptad.Command.Tables
