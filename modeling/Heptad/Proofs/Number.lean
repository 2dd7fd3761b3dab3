import Heptad.Number

/-!
# Comparing numbers

Integers are compared by their places on the scale of exact values, in units.
As the scale is positive, this is the comparison of the integers themselves.

Numbers of all kinds are compared by these places too, which are in a row
(`Extent.lt_trans`, `Extent.lt_of_not_lt`). What is not a number (`IsNan`) has no
place, so that the order of numbers is transitive, but leaves some of them out.
-/

namespace Heptad

/-- There are units in one. -/
theorem Magnitude.scale_pos : 0 < scale := by decide +kernel

/-! ## Places -/

namespace Extent

variable {x y z : Extent}

theorem lt_irrefl (x : Extent) : x.lt x = false := by
  cases x with
  | below | above => rfl
  | units u => exact decide_eq_false (Int.lt_irrefl u)

theorem lt_trans (h : x.lt y = true) (h' : y.lt z = true) : x.lt z = true := by
  cases x with
  | above => cases h
  | below =>
    cases z with
    | below => cases y <;> cases h'
    | units | above => rfl
  | units u =>
    cases y with
    | below => cases h
    | above => cases h'
    | units v =>
      cases z with
      | below => cases h'
      | above => rfl
      | units w =>
        exact decide_eq_true (Int.lt_trans (of_decide_eq_true h) (of_decide_eq_true h'))

/-- Of two places one lies before the other. -/
theorem lt_of_not_lt (h : y.lt x = false) (hne : x ≠ y) : x.lt y = true := by
  cases x with
  | above =>
    cases y with
    | above => exact absurd rfl hne
    | below | units => cases h
  | below =>
    cases y with
    | below => exact absurd rfl hne
    | units | above => rfl
  | units u =>
    cases y with
    | below => cases h
    | above => rfl
    | units v =>
      have hle : u ≤ v := Int.not_lt.1 (of_decide_eq_false h)
      exact decide_eq_true (Int.lt_iff_le_and_ne.2 ⟨hle, fun heq => hne (congrArg units heq)⟩)

end Extent

/-! ## Numbers -/

namespace Number

/-- Integers are ordered as they are. -/
theorem lt_int_int (i j : Int) : lt (.int i) (.int j) = decide (i < j) :=
  decide_eq_decide.2 (Int.mul_lt_mul_right (Int.natCast_pos.2 Magnitude.scale_pos))

/-- Integers are equal as they are. -/
theorem eq_int_int (i j : Int) : eq (.int i) (.int j) = decide (i = j) :=
  decide_eq_decide.2 ((Extent.units.injEq _ _).to_iff.trans
    (Int.mul_eq_mul_right_iff (Int.natCast_ne_zero.2 (Nat.ne_of_gt Magnitude.scale_pos))))

/-- Whether a number has no place among the others. -/
def IsNan (n : Number) : Prop := n.extent? = none

variable {a b c : Number}

theorem isNan_float {x : Binary64} : (float x).IsNan ↔ x = .nan := by
  cases x with
  | nan => exact iff_of_true rfl rfl
  | infinite s => cases s <;> exact iff_of_false nofun nofun
  | finite s m => exact iff_of_false nofun nofun

/-- A number is less than another if both have places and its own comes first. -/
theorem lt_eq_true_iff :
    a.lt b = true ↔ ∃ x y, a.extent? = some x ∧ b.extent? = some y ∧ x.lt y = true := by
  rw [lt]
  split
  · rename_i x y ha hb
    rw [ha, hb]
    constructor
    · exact fun h => ⟨x, y, rfl, rfl, h⟩
    · rintro ⟨_, _, hx, hy, h⟩
      cases hx
      cases hy
      exact h
  · rename_i hnone
    refine ⟨nofun, ?_⟩
    rintro ⟨x, y, ha, hb, -⟩
    exact absurd hb (hnone x y ha)

/-- Numbers are equal if they have the same place. -/
theorem eq_eq_true_iff : a.eq b = true ↔ ∃ x, a.extent? = some x ∧ b.extent? = some x := by
  rw [eq]
  split
  · rename_i x y ha hb
    rw [ha, hb, decide_eq_true_iff]
    constructor
    · rintro rfl
      exact ⟨x, rfl, rfl⟩
    · rintro ⟨_, hx, hy⟩
      cases hx
      cases hy
      rfl
  · rename_i hnone
    refine ⟨nofun, ?_⟩
    rintro ⟨x, ha, hb⟩
    exact absurd hb (hnone x x ha)

theorem lt_irrefl (a : Number) : a.lt a = false := by
  rw [Bool.eq_false_iff]
  intro h
  obtain ⟨x, y, ha, hb, hlt⟩ := lt_eq_true_iff.1 h
  rw [ha] at hb
  cases hb
  rw [x.lt_irrefl] at hlt
  cases hlt

theorem lt_trans (h : a.lt b = true) (h' : b.lt c = true) : a.lt c = true := by
  obtain ⟨x, y, ha, hb, hxy⟩ := lt_eq_true_iff.1 h
  obtain ⟨y', z, hb', hc, hyz⟩ := lt_eq_true_iff.1 h'
  rw [hb] at hb'
  cases hb'
  exact lt_eq_true_iff.2 ⟨x, z, ha, hc, Extent.lt_trans hxy hyz⟩

/-- A number equals itself, unless it is none. -/
theorem eq_self (h : ¬ a.IsNan) : a.eq a = true := by
  obtain ⟨x, hx⟩ := Option.ne_none_iff_exists'.1 h
  exact eq_eq_true_iff.2 ⟨x, hx, hx⟩

/-- What equals each other is a number. -/
theorem not_isNan_of_eq (h : a.eq b = true) : ¬ a.IsNan ∧ ¬ b.IsNan := by
  obtain ⟨x, ha, hb⟩ := eq_eq_true_iff.1 h
  rw [IsNan, IsNan, ha, hb]
  exact ⟨nofun, nofun⟩

/-- What is not a number is less than nothing. -/
theorem lt_of_isNan (h : a.IsNan) (b : Number) : a.lt b = false := by
  rw [Bool.eq_false_iff]
  intro hlt
  obtain ⟨x, -, ha, -⟩ := lt_eq_true_iff.1 hlt
  rw [IsNan, ha] at h
  cases h

/-- Of two different numbers one is less than the other. -/
theorem lt_of_not_lt (ha : ¬ a.IsNan) (hb : ¬ b.IsNan) (h : b.lt a = false)
    (hne : a.eq b = false) : a.lt b = true := by
  obtain ⟨x, hx⟩ := Option.ne_none_iff_exists'.1 ha
  obtain ⟨y, hy⟩ := Option.ne_none_iff_exists'.1 hb
  refine lt_eq_true_iff.2 ⟨x, y, hx, hy, Extent.lt_of_not_lt ?_ ?_⟩
  · rw [lt, hx, hy] at h
    exact h
  · rintro rfl
    rw [eq_eq_true_iff.2 ⟨x, hx, hy⟩] at hne
    cases hne

/-- Equal numbers are less than the same ones, and the same ones are less than them. -/
theorem lt_congr (h : a.eq b = true) (c : Number) : a.lt c = b.lt c ∧ c.lt a = c.lt b := by
  obtain ⟨x, ha, hb⟩ := eq_eq_true_iff.1 h
  rw [lt, lt, lt, lt, ha, hb]
  exact ⟨rfl, rfl⟩

/-- A number is at least as great as another; what is not a number is no such thing. -/
def AtLeast (a b : Number) : Prop := b.lt a = true ∨ b.eq a = true

/-- Of two numbers the one that is not less is at least as great. -/
theorem atLeast_of_not_lt (ha : ¬ a.IsNan) (hb : ¬ b.IsNan) (h : a.lt b = false) :
    a.AtLeast b := by
  cases heq : b.eq a with
  | true => exact .inr heq
  | false => exact .inl (lt_of_not_lt hb ha h heq)

theorem AtLeast.not_lt (h : a.AtLeast b) : a.lt b = false := by
  rw [Bool.eq_false_iff]
  intro hlt
  rcases h with hba | heq
  · have haa := lt_trans hlt hba
    rw [lt_irrefl] at haa
    cases haa
  · rw [(lt_congr heq a).2, lt_irrefl] at hlt
    cases hlt

theorem AtLeast.not_isNan (h : a.AtLeast b) : ¬ a.IsNan := by
  rcases h with hlt | heq
  · obtain ⟨_, _, -, ha, -⟩ := lt_eq_true_iff.1 hlt
    rw [IsNan, ha]
    exact nofun
  · exact (not_isNan_of_eq heq).2

end Number

end Heptad
