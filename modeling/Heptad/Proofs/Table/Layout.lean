import Heptad.Proofs.Table.Cells
import Heptad.Table.Layout

/-!
# Printed tables read back

A printed table tells what it was printed from, whatever the width of its cells: no line
has an end within it, so that the text tells its lines, and every cell takes the same
room on its line, of which the first place tells what the cell holds.

* `unlines_injective`: a text tells its lines;
* `flatMap_injective`: parts that take the same room are told by the whole;
* `row_injective`, `rows_injective`: rows and matrices tell their cells;
* `format2_injective`, `format3_injective`: so do printed tables.
-/

namespace Heptad

namespace Layout

variable {α β : Type}

/-! ## Widths -/

/-- There is nothing wrong with a width if the line below the head can be counted and held. -/
theorem fault?_eq_none_iff {room : Nat} {width : Int} : fault? room width = none ↔
    Value.isCount (Morphism.count * width) = true ∧ Morphism.count * width ≤ room := by
  simp only [fault?, Value.isCount, Morphism.count]
  grind

/-! ## Lines -/

/-- A line has no end within it. -/
def Unbroken (line : List Char) : Prop := '\n' ∉ line

instance : DecidablePred Unbroken := fun line => inferInstanceAs (Decidable ('\n' ∉ line))

theorem toList_unlines (ls : List (List Char)) : (unlines ls).toList = ['\n'].intercalate ls := by
  have hlines : ls.map (String.toList ∘ String.ofList) = ls := by
    rw [show String.toList ∘ String.ofList = id from funext fun _ => String.toList_ofList,
      List.map_id]
  rw [unlines, String.toList_intercalate, List.map_map, hlines]
  rfl

/-- A text tells its lines. -/
theorem unlines_injective {ls ls' : List (List Char)} (h : ∀ l ∈ ls, Unbroken l)
    (h' : ∀ l ∈ ls', Unbroken l) (hne : ls ≠ []) (hne' : ls' ≠ [])
    (heq : unlines ls = unlines ls') : ls = ls' := by
  have hsplit := congrArg (fun s : String => s.toList.splitOn '\n') heq
  rwa [toList_unlines, toList_unlines, List.splitOn_intercalate '\n' h hne,
    List.splitOn_intercalate '\n' h' hne'] at hsplit

namespace Unbroken

variable {c : Char} {l l' : List Char}

theorem cons (hc : c ≠ '\n') (h : Unbroken l) : Unbroken (c :: l) := fun hmem =>
  (List.mem_cons.1 hmem).elim hc.symm h

theorem append (h : Unbroken l) (h' : Unbroken l') : Unbroken (l ++ l') := fun hmem =>
  (List.mem_append.1 hmem).elim h h'

theorem replicate (n : Nat) (hc : c ≠ '\n') : Unbroken (List.replicate n c) := fun hmem =>
  hc (List.eq_of_mem_replicate hmem).symm

theorem flatMap {xs : List α} {f : α → List Char} (h : ∀ x, Unbroken (f x)) :
    Unbroken (xs.flatMap f) := by
  intro hmem
  obtain ⟨x, -, hx⟩ := List.mem_flatMap.1 hmem
  exact h x hx

theorem pad (width : Int) (hc : c ≠ '\n') : Unbroken (Layout.pad width c) :=
  .cons hc (.replicate _ (by decide))

end Unbroken

theorem glyph_ne_lineEnd (m : Morphism) : m.glyph ≠ '\n' := by cases m <;> decide

theorem cellChar_ne_lineEnd (c : Option Morphism) : cellChar c ≠ '\n' := by
  cases c with
  | none => decide
  | some m => exact glyph_ne_lineEnd m

theorem unbroken_header (width : Int) : Unbroken (header width) :=
  .append (.replicate _ (by decide)) (.flatMap fun m => .pad width (glyph_ne_lineEnd m))

theorem unbroken_rule (width : Int) : Unbroken (rule width) :=
  .append (.replicate _ (by decide)) (.replicate _ (by decide))

theorem unbroken_row (width : Int) (m : Morphism) (cells : Morphism → Option Morphism) :
    Unbroken (row width m cells) :=
  .cons (by decide) <| .cons (by decide) <| .cons (glyph_ne_lineEnd m) <| .cons (by decide) <|
    .cons (by decide) <| .cons (by decide) <|
      .flatMap fun k => .pad width (cellChar_ne_lineEnd (cells k))

theorem unbroken_rows (width : Int) (cells : Morphism → Morphism → Option Morphism) :
    ∀ l ∈ rows width cells, Unbroken l := by
  intro l hl
  obtain ⟨m, -, rfl⟩ := List.mem_map.1 hl
  exact unbroken_row width m (cells m)

/-! ## Cells -/

/-- Parts that take the same room are told by what they make up. -/
theorem flatMap_injective {xs : List α} {f g : α → List β}
    (hlength : ∀ x, (f x).length = (g x).length) (h : xs.flatMap f = xs.flatMap g) :
    ∀ x ∈ xs, f x = g x := by
  induction xs with
  | nil => exact fun _ hx => absurd hx List.not_mem_nil
  | cons x xs ih =>
    rw [List.flatMap_cons, List.flatMap_cons] at h
    obtain ⟨hx, hxs⟩ := List.append_inj h (hlength x)
    exact List.forall_mem_cons.2 ⟨hx, ih hxs⟩

/-- A dot is no glyph, and no two glyphs are the same. -/
theorem cellChar_injective {c d : Option Morphism} (h : cellChar c = cellChar d) : c = d := by
  have hdot (m : Morphism) : m.glyph ≠ '.' := by cases m <;> decide
  cases c with
  | none =>
    cases d with
    | none => rfl
    | some n => exact absurd h.symm (hdot n)
  | some m =>
    cases d with
    | none => exact absurd h (hdot m)
    | some n => exact congrArg some (Morphism.glyph_injective h)

/-- Every cell takes the same room, in which it comes first. -/
theorem length_pad (width : Int) (c d : Char) : (pad width c).length = (pad width d).length := by
  simp only [pad, List.length_cons, List.length_replicate]

theorem row_injective {width : Int} {m : Morphism} {cells cells' : Morphism → Option Morphism}
    (h : row width m cells = row width m cells') : cells = cells' := by
  simp only [row, List.cons.injEq, true_and] at h
  funext k
  have hpad := flatMap_injective (fun _ => length_pad width _ _) h k k.mem_all
  exact cellChar_injective (List.cons.inj hpad).1

theorem rows_injective {width : Int} {cells cells' : Morphism → Morphism → Option Morphism}
    (h : rows width cells = rows width cells') : cells = cells' := by
  funext m
  exact row_injective (List.map_inj_left.1 h m m.mem_all)

end Layout

namespace Table

open Layout

/-! ## Tables -/

theorem unbroken_lines2 (t : Table2) (width : Int) : ∀ l ∈ t.lines2 width, Unbroken l := by
  rw [lines2]
  simp only [List.forall_mem_append, List.forall_mem_cons]
  exact ⟨⟨⟨by decide, unbroken_header width, unbroken_rule width, nofun⟩, unbroken_rows width _⟩,
    .replicate _ (by decide), nofun⟩

theorem unbroken_plane (t : Table3) (width : Int) (i : Morphism) :
    ∀ l ∈ t.plane width i, Unbroken l := by
  have htitle : Unbroken ("Plane ".toList ++ i.glyph :: " (first morphism):".toList) :=
    .append (by decide) (.cons (glyph_ne_lineEnd i) (by decide))
  rw [plane]
  simp only [List.forall_mem_append, List.forall_mem_cons]
  exact ⟨⟨nofun, htitle, unbroken_header width, unbroken_rule width, nofun⟩, unbroken_rows width _⟩

theorem unbroken_lines3 (t : Table3) (width : Int) : ∀ l ∈ t.lines3 width, Unbroken l := by
  refine List.forall_mem_cons.2 ⟨by decide, fun l hl => ?_⟩
  obtain ⟨i, -, hi⟩ := List.mem_flatMap.1 hl
  exact unbroken_plane t width i l hi

/-- A printed table of two sides tells its cells, whatever the width. -/
theorem format2_injective {t u : Table2} {width : Int} (h : t.format2 width = u.format2 width) :
    t = u := by
  have hlines := unlines_injective (unbroken_lines2 t width) (unbroken_lines2 u width) nofun nofun h
  have hrows := List.append_cancel_left (List.append_cancel_right hlines)
  refine ext_cell_iff.2 fun ⟨i, j⟩ => ?_
  exact congrFun (congrFun (rows_injective hrows) i) j

/-- A printed table of three sides tells its cells, whatever the width. -/
theorem format3_injective {t u : Table3} {width : Int} (h : t.format3 width = u.format3 width) :
    t = u := by
  have hlines := unlines_injective (unbroken_lines3 t width) (unbroken_lines3 u width) nofun nofun h
  have hlength (i : Morphism) : (t.plane width i).length = (u.plane width i).length := rfl
  have hplanes := flatMap_injective hlength (List.cons.inj hlines).2
  refine ext_cell_iff.2 fun ⟨i, j, k⟩ => ?_
  have hrows := List.append_cancel_left (hplanes i i.mem_all)
  exact congrFun (congrFun (rows_injective hrows) j) k

end Table

end Heptad
