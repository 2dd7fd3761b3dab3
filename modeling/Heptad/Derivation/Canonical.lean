import Heptad.Basis
import Heptad.Digest.Sha256
import Heptad.Json.Basic
import Heptad.Derivation.Render

/-!
# The canonical form of a derivation

A derivation is hashed over a text of the interchange format in which nothing
is conflated: each kind of step and each kind of container in a literal has a
tag of its own. An ordinal is tagged like the morphism it names, and mappings
are sorted by their keys.
-/

namespace Heptad

namespace Derivation

/-- An object with a single member. -/
def tagged (tag : String) (j : Json) : Json := .obj [(tag, j)]

/-- The first key of a mapping that is no text. -/
def strayKey? : List (Value × Value) → Option Value
  | [] => none
  | (.str _, _) :: es => strayKey? es
  | (k, _) :: _ => some k

/-- A member put among others that are in the order of their names. -/
def insertMember (m : String × Json) : List (String × Json) → List (String × Json)
  | [] => [m]
  | n :: ns => if n.1 < m.1 then n :: insertMember m ns else m :: n :: ns

/-- The members of an object in the order of their names. -/
def byName (members : List (String × Json)) : List (String × Json) :=
  members.foldr insertMember []

mutual

/-- The tagged form of a literal value. -/
def tagValue : Value → Except Fault Json
  | .null => .ok .null
  | .bool b => .ok (.bool b)
  | .int i => .ok (.int i)
  | .float x => .ok (.float x)
  | .str s => .ok (.str s)
  | .morphism m => .ok (tagged "morphism" (.int m.ordinal))
  | .tuple items => do return tagged "tuple" (.arr (← tagValues items))
  | .list items => do return tagged "list" (.arr (← tagValues items))
  | .mapping entries =>
    match strayKey? entries with
    | some k => .error (k.shownIn .literalKey)
    | none => do return tagged "dict" (.obj (byName (← tagEntries entries)))
  | v => .error (v.shownIn .literalValue)

/-- The tagged forms of several literal values. -/
def tagValues : List Value → Except Fault (List Json)
  | [] => .ok []
  | v :: vs => do
    let j ← tagValue v
    return j :: (← tagValues vs)

/-- The members a mapping becomes whose keys are texts. -/
def tagEntries : List (Value × Value) → Except Fault (List (String × Json))
  | [] => .ok []
  | (k, v) :: es => do
    let name ← match k with
      | .str s => .ok s
      | _ => .error (k.shownIn .literalKey)
    let j ← tagValue v
    return (name, j) :: (← tagEntries es)

end

mutual

/-- The tagged form of a step. -/
def tagStep : Value → Except Failure Json
  | .morphism m => .ok (tagged "m" (.int m.ordinal))
  | .int i =>
    match Morphism.ofInt? i with
    | some m => .ok (tagged "m" (.int m.ordinal))
    | none => .error (EvalError.outsideBasis i).raised
  | .literal v => ((tagValue v).map (tagged "lit")).mapError .fault
  | .sub steps => do return tagged "sub" (.arr (← tagSteps steps))
  | v => .error (.fault (v.shownIn .notAStep))

/-- The tagged forms of several steps. -/
def tagSteps : List Value → Except Failure (List Json)
  | [] => .ok []
  | v :: vs => do
    let j ← tagStep v
    return j :: (← tagSteps vs)

end

/-- The canonical tree of a derivation; the format has to have its numbers. -/
def canonicalJson (d : Derivation) : Except Failure Json := do
  let j := Json.arr (← tagSteps d)
  match j.fault? with
  | none => .ok j
  | some f => .error (.fault f)

/-- The canonical text of a derivation. -/
def canonicalText (d : Derivation) : Except Failure String := d.canonicalJson.map Json.text

/-- The hash of a derivation: the digest of its canonical text. -/
def hash (d : Derivation) : Except Failure String := d.canonicalText.map sha256

end Derivation

end Heptad
