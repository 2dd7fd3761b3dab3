import Heptad.Value.Text

/-!
# Traces

Every transition of an evaluator is recorded: the number of the step, what
happened, the glyph of the morphism it happened to, and the facts behind it.
A tracer keeps the records of one evaluator. When debugging is on it also
writes a line for each record, in its description, and for each free-form note.
A record is kept before it is described, which fails if a fact has no text.
-/

namespace Heptad

/-- A recorded transition. -/
structure Record where
  step : Value
  kind : String
  glyph : Option String
  detail : List (String × Value)

namespace Record

/-- The facts of a record, as a mapping. -/
def facts (r : Record) : Value := .mapping (r.detail.map fun d => (.str d.1, d.2))

/-- A record in one line. -/
def describe (r : Record) : String :=
  let glyph := (r.glyph.map (" " ++ ·)).getD ""
  let head := s!"Step {r.step.text}: {r.kind}{glyph}"
  let facts := r.detail.map fun d => s!"{d.1}={d.2.repr}"
  if facts.isEmpty then head else s!"{head} ({Value.commas facts})"

/-- Whether a record can be described: its step and its facts have a text. -/
def isShowable (r : Record) : Bool := r.step.isShowable && r.detail.all fun d => d.2.isShowable

end Record

/-- Transitions that can be put on record. -/
class Recorded (ε : Type) where
  toRecord : ε → Record
  /-- Whether the record of a transition can be described. Counts of steps and depths
      always have a text. -/
  isShowable : ε → Bool

instance : Recorded Record := ⟨id, Record.isShowable⟩

/-- The line a transition is described in. -/
def describe {ε : Type} [Recorded ε] (e : ε) : String := (Recorded.toRecord e).describe

/-- Whether debugging is on for a flag; without one it is off. -/
def debugOn (flag : Value) : Bool := flag.truthy

/-- The records of one evaluator. -/
structure Tracer (ε : Type) where
  /-- The name lines begin with. -/
  source : String
  /-- Whether lines are written. -/
  debug : Bool
  /-- The records, in order. -/
  events : List ε

namespace Tracer

variable {ε : Type}

/-- A tracer without records. -/
def new (source : String) (debug : Value) : Tracer ε := ⟨source, debugOn debug, []⟩

/-- The tracer with its records dropped. -/
def clear (t : Tracer ε) : Tracer ε := { t with events := [] }

/-- The tracer with one more record. -/
def push (t : Tracer ε) (e : ε) : Tracer ε := { t with events := t.events ++ [e] }

/-- What is written for a message: its line when debugging is on, else nothing. -/
@[inline] def lines (t : Tracer ε) (message : String) : List String :=
  if t.debug then [s!"[{t.source}] {message}\n"] else []

variable [Recorded ε]

/-- What is written for a transition: the line it is described in, if it has one. -/
def eventLines (t : Tracer ε) (e : ε) : List String :=
  if Recorded.isShowable e then t.lines (describe e) else []

/-- Whether a transition is recorded without failing: when debugging is on it has to be
    described. -/
def admits (t : Tracer ε) (e : ε) : Bool := !t.debug || Recorded.isShowable e

/-- Without debugging nothing has to be described. -/
theorem admits_of_off {t : Tracer ε} (h : t.debug = false) (e : ε) : t.admits e = true := by
  rw [admits, h]
  rfl

/-- What can be described is recorded without failing in any case. -/
theorem admits_of_showable {t : Tracer ε} {e : ε} (h : Recorded.isShowable e = true) :
    t.admits e = true := by
  rw [admits, h, Bool.or_true]

/-- With debugging what cannot be described is recorded only in failing. -/
theorem admits_of_on {t : Tracer ε} {e : ε} (h : t.debug = true)
    (he : Recorded.isShowable e = false) : t.admits e = false := by
  rw [admits, h, he]
  rfl

end Tracer

end Heptad
