import Heptad.Failure
import Heptad.Reflex.Observation

/-!
# Clocks

A moment is written as a date and a time of day, with a fraction of a second
only if there is one, and with the distance from universal time only if it is
known. A clock answers its readings, one after the other, with such texts.
-/

namespace Heptad.Reflex

/-- A number with leading zeros. -/
def padded (width n : Nat) : String :=
  let digits := toString n
  String.ofList (List.replicate (width - digits.length) '0') ++ digits

/-- A moment in the calendar. -/
structure Moment where
  year : Nat
  month : Nat
  day : Nat
  hour : Nat
  minute : Nat
  second : Nat
  microsecond : Nat
  /-- Minutes ahead of universal time. -/
  offset : Option Int

namespace Moment

/-- The distance from universal time: sign, hours and minutes. -/
def offsetText (minutes : Int) : String :=
  let sign := if minutes < 0 then "-" else "+"
  let n := minutes.natAbs
  s!"{sign}{padded 2 (n / 60)}:{padded 2 (n % 60)}"

/-- A moment written out. -/
def text (m : Moment) : String :=
  let date := s!"{padded 4 m.year}-{padded 2 m.month}-{padded 2 m.day}"
  let time := s!"{padded 2 m.hour}:{padded 2 m.minute}:{padded 2 m.second}"
  let fraction := if m.microsecond = 0 then "" else s!".{padded 6 m.microsecond}"
  let offset := (m.offset.map offsetText).getD ""
  s!"{date}T{time}{fraction}{offset}"

end Moment

/-- What reading a clock can give. -/
inductive Reading where
  | moment (m : Moment)
  | failing

/-- What a reading is answered with. -/
def Reading.answer : Reading → Except Failure String
  | moment m => .ok m.text
  | failing => .error (.fault .clockFailed)

/-- A clock that always gives the same text. -/
def steady (text : String) : Answers String := fun _ => .ok text

/-- A clock with given readings. -/
def scripted (readings : List Reading) : Answers String := .ofList (readings.map Reading.answer)

end Heptad.Reflex
