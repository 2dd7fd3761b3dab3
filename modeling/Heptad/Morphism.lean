/-!
# The basis

The calculus has seven morphisms. Each one has an *ordinal*, its position in
the basis, by which tables, fields and histories are addressed, and a *glyph*,
the single character it is printed as.

* `ofOrdinal?_ordinal`: an ordinal names exactly one morphism;
* `glyph_injective`: so does a glyph.
-/

namespace Heptad

/-- A basis morphism. -/
inductive Morphism where
  /-- The neutral element: data, or a step that does nothing. -/
  | identity
  /-- Application of a function to its arguments. -/
  | apply
  /-- Abstraction. -/
  | lambda
  /-- Conjunction. -/
  | conj
  /-- Negation. -/
  | neg
  /-- The ternary conditional. -/
  | cond
  /-- Pairing. -/
  | pair
  deriving DecidableEq, Inhabited

namespace Morphism

/-- The basis in the order of its ordinals. -/
def all : List Morphism := [identity, apply, lambda, conj, neg, cond, pair]

/-- The number of morphisms. -/
def count : Nat := 7

/-- The position of a morphism in the basis. -/
def ordinal : Morphism → Nat
  | identity => 0
  | apply => 1
  | lambda => 2
  | conj => 3
  | neg => 4
  | cond => 5
  | pair => 6

/-- The morphism at a position of the basis, if there is one. -/
def ofOrdinal? (n : Nat) : Option Morphism := all[n]?

/-- The character a morphism is printed as. -/
def glyph : Morphism → Char
  | identity => 'I'
  | apply => '@'
  | lambda => 'λ'
  | conj => '∧'
  | neg => '¬'
  | cond => '?'
  | pair => '⊗'

/-- The glyph as a text of one character. -/
def symbol (m : Morphism) : String := String.singleton m.glyph

/-- The name of a morphism in words. -/
def name : Morphism → String
  | identity => "IDENTITY"
  | apply => "APPLY"
  | lambda => "LAMBDA"
  | conj => "AND"
  | neg => "NOT"
  | cond => "COND"
  | pair => "PAIR"

theorem length_all : all.length = count := rfl

theorem mem_all (m : Morphism) : m ∈ all := by cases m <;> decide

theorem ordinal_lt (m : Morphism) : m.ordinal < count := by cases m <;> decide

@[simp] theorem ofOrdinal?_ordinal (m : Morphism) : ofOrdinal? m.ordinal = some m := by
  cases m <;> rfl

theorem ordinal_of_ofOrdinal? {n : Nat} {m : Morphism} (h : ofOrdinal? n = some m) :
    m.ordinal = n := by
  unfold ofOrdinal? all at h
  match n with
  | 0 | 1 | 2 | 3 | 4 | 5 | 6 => cases h; rfl
  | n + 7 => simp at h

theorem ordinal_injective {m n : Morphism} (h : m.ordinal = n.ordinal) : m = n := by
  have hm := ofOrdinal?_ordinal m
  rw [h, ofOrdinal?_ordinal] at hm
  exact (Option.some.inj hm).symm

theorem glyph_injective {m n : Morphism} (h : m.glyph = n.glyph) : m = n := by
  revert h
  cases m <;> cases n <;> decide

/-- The morphism of an integer inside the basis. -/
def ofInt? (i : Int) : Option Morphism := if i < 0 then none else ofOrdinal? i.toNat

end Morphism

end Heptad
