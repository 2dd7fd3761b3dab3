import Heptad.Json.Basic
import Heptad.Sorting.Runs
import Heptad.Value.Compare

/-!
# Values in the interchange format

The format has no tuples, morphisms or keys other than texts: tuples become
arrays, morphisms their ordinals, and keys the text their value has in the
format. Mappings are sorted by their keys before these become texts, so that the
order in which they were put together does not show. What has no form in the
format is refused.
-/

namespace Heptad

namespace Value

/-- The name of the member a key becomes. -/
def memberName : Value → Except Fault String
  | str s => .ok s
  | float x => if x.isFinite then .ok x.text else .error .notFinite
  | null => .ok "null"
  | bool b => .ok (if b then "true" else "false")
  | int i => if hasDecimal i then .ok (toString i) else .error .tooManyDigits
  | morphism m => .ok (toString m.ordinal)
  | v => .error (.badKey v.typeName)

/-- The members of an object, from the entries of a mapping in sorted order:
    for each its key is converted first, then its value. -/
def members : List (Value × Except Fault Json) → Except Fault (List (String × Json))
  | [] => .ok []
  | (key, value) :: rest => do
    let name ← key.memberName
    let j ← value
    return (name, j) :: (← members rest)

mutual

/-- A value in the interchange format. -/
def toJson : Value → Except Fault Json
  | null => .ok .null
  | bool b => .ok (.bool b)
  | int i => if hasDecimal i then .ok (.int i) else .error .tooManyDigits
  | float x => if x.isFinite then .ok (.float x) else .error .notFinite
  | str s => .ok (.str s)
  | morphism m => .ok (.int m.ordinal)
  | list items | tuple items => do return .arr (← toJsons items)
  | mapping entries => do
    -- keys are compared before any of them is converted
    let sorted ← sort? (fun e f => e.1.lt? f.1) (toJsonEntries entries)
    return .obj (← members sorted)
  | v => .error (.notSerializable v.typeName)

/-- Several values in the interchange format. -/
def toJsons : List Value → Except Fault (List Json)
  | [] => .ok []
  | v :: vs => do
    let j ← v.toJson
    return j :: (← toJsons vs)

/-- The entries of a mapping, each value in the interchange format. -/
def toJsonEntries : List (Value × Value) → List (Value × Except Fault Json)
  | [] => []
  | (k, v) :: es => (k, v.toJson) :: toJsonEntries es

end

/-- The canonical text of a value. -/
def canonicalText (v : Value) : Except Fault String := v.toJson.map Json.text

end Value

end Heptad
