import Heptad.Text.Quoted
import Heptad.Value.Basic

/-!
# The text of a value

`Value.repr` shows a value so that its type can be seen: texts between quotes,
containers by their brackets, steps by their names. `Value.text` is what a
value contributes to a longer text; it differs for texts, which are taken as
they are, and for morphisms, which give their ordinal.

These are the texts with as many digits as the integers have. A value that holds
an integer with too many of them has no text (`Value.isShowable`), and what is
to show it fails.
-/

namespace Heptad

namespace Value

/-- Parts between commas. -/
def commas (parts : List String) : String := String.intercalate ", " parts

/-- A tuple of shown parts; a single one is followed by a comma. -/
def parenthesized : List String → String
  | [p] => s!"({p},)"
  | parts => s!"({commas parts})"

/-- A mapping of shown keys and values. -/
def braced (parts : List (String × String)) : String :=
  "\x7b" ++ commas (parts.map fun p => s!"{p.1}: {p.2}") ++ "\x7d"

mutual

/-- A value shown with its type. -/
def repr : Value → String
  | null => "None"
  | bool b => if b then "True" else "False"
  | int i => toString i
  | float x => x.text
  | str s => quoted s
  | bytes b => quotedBytes b
  | list items => s!"[{commas (reprs items)}]"
  | tuple items => parenthesized (reprs items)
  | mapping entries => braced (reprEntries entries)
  | morphism m => s!"<Morphism.{m.name}: {m.ordinal}>"
  | literal v => s!"Literal(value={v.repr})"
  | sub steps => s!"SubDerivation(derivation={parenthesized (reprs steps)})"
  | noRule => "NO_RULE"
  | reentrant _ => "<reenter>"

/-- Several values shown. -/
def reprs : List Value → List String
  | [] => []
  | v :: vs => v.repr :: reprs vs

/-- The entries of a mapping shown. -/
def reprEntries : List (Value × Value) → List (String × String)
  | [] => []
  | (k, v) :: es => (k.repr, v.repr) :: reprEntries es

end

/-- What a value contributes to a longer text. -/
def text : Value → String
  | str s => s
  | morphism m => toString m.ordinal
  | v => v.repr

/-! ## Values that have a text -/

mutual

/-- Whether a value has a text: all integers that would show in it are short enough.
    What a reentrant operand carries does not show. -/
def isShowable : Value → Bool
  | int i => hasDecimal i
  | list items | tuple items | sub items => areShowable items
  | mapping entries => entriesShowable entries
  | literal v => v.isShowable
  | _ => true

/-- Whether several values have a text. -/
def areShowable : List Value → Bool
  | [] => true
  | v :: vs => v.isShowable && areShowable vs

/-- Whether the keys and values of a mapping have a text. -/
def entriesShowable : List (Value × Value) → Bool
  | [] => true
  | (k, v) :: es => k.isShowable && v.isShowable && entriesShowable es

end

/-- The fault whose wording shows a value; if this has no text, that is what is at
    fault instead. -/
def shownIn (v : Value) (fault : String → Fault) : Fault :=
  if v.isShowable then fault v.repr else .tooManyDigits

theorem areShowable_eq_all (vs : List Value) : areShowable vs = vs.all isShowable := by
  induction vs with
  | nil => rfl
  | cons v vs ih => rw [areShowable, ih, List.all_cons]

theorem areShowable_iff {vs : List Value} :
    areShowable vs = true ↔ ∀ v ∈ vs, v.isShowable = true := by
  rw [areShowable_eq_all, List.all_eq_true]

theorem entriesShowable_iff {es : List (Value × Value)} :
    entriesShowable es = true ↔
      ∀ e ∈ es, e.1.isShowable = true ∧ e.2.isShowable = true := by
  induction es with
  | nil => exact iff_of_true rfl nofun
  | cons e es ih => simp only [entriesShowable, Bool.and_eq_true, ih, List.forall_mem_cons]

/-- The brief text of a number. -/
def brief (v : Value) : Except Fault String :=
  match v with
  | str _ => .error .briefText
  | _ =>
    match v.number? with
    | none => .error (.noBrief v.typeName)
    | some n =>
      match n.toFloat? with
      | none => .error .intTooLarge
      | some x => .ok x.brief

end Value

end Heptad
