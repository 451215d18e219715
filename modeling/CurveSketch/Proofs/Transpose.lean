import CurveSketch.Sketch.Basic
import Mathlib.Data.List.Basic

/- Slicing rows into columns: the column at a position holds the glyph that each row has there. -/
namespace CurveSketch
variable {α : Type}

/-- The glyphs at one position of all rows that reach so far. -/
def columnAt (rows : List (List Char)) (i : Nat) : Column := rows.filterMap (·[i]?)

theorem slices_eq_map (width : Nat) (rows : List (List Char)) :
    slices width rows = (List.range width).map (columnAt rows) := by
  induction width generalizing rows with
  | zero => rfl
  | succ width ih =>
    have shifted (i : Nat) : columnAt (rows.map List.tail) i = columnAt rows (i + 1) := by
      simp [columnAt, List.filterMap_map]
    have first : rows.filterMap List.head? = columnAt rows 0 := by
      simp [columnAt, List.head?_eq_getElem?]
    rw [slices, ih, List.range_succ_eq_map, List.map_cons, List.map_map, first]
    simp [Function.comp_def, shifted]

theorem columns_eq_map (rows : List (List Char)) :
    columns rows = (List.range (rows.head?.elim 0 List.length)).map (columnAt rows) := by
  cases rows with
  | nil => rfl
  | cons first rest => exact slices_eq_map first.length (first :: rest)

theorem map_modify_of_same {β γ : Type} {change : β → β} {seen : β → γ}
    (same : ∀ b, seen (change b) = seen b) (items : List β) (place : Nat) :
    (items.modify place change).map seen = items.map seen := by
  refine List.ext_getElem? fun i => ?_
  rw [List.getElem?_map, List.getElem?_modify, List.getElem?_map]
  cases items[i]? with
  | none => rfl
  | some b => by_cases here : place = i <;> simp [here, same]

namespace Sketch

def column (s : Sketch α) (i : Nat) : Column := columnAt (s.rows.map (·.glyphs)) i

theorem columns_of_widths {s : Sketch α} (inhabited : s.rows ≠ [])
    (widths : ∀ row ∈ s.rows, row.glyphs.length = s.ruler.marks.length) :
    s.columns = (List.range s.ruler.marks.length).map s.column := by
  rw [columns, columns_eq_map]
  cases rows : s.rows with
  | nil => exact absurd rows inhabited
  | cons first rest =>
    have width := widths first (by simp [rows])
    simp only [List.map_cons, List.head?_cons, Option.elim_some, width]
    refine List.map_congr_left fun i _ => ?_
    rw [column, rows, List.map_cons]

end Sketch

theorem columnAt_reaching (rows : List (List Char)) (i : Nat) :
    (columnAt rows i).map some = (rows.filter (i < ·.length)).map (·[i]?) := by
  induction rows with
  | nil => rfl
  | cons row rows ih =>
    by_cases reaches : i < row.length
    · simpa [columnAt, reaches] using ih
    · simpa [columnAt, reaches] using ih

theorem columnAt_length (rows : List (List Char)) (i : Nat) :
    (columnAt rows i).length = rows.countP (i < ·.length) := by
  have lengths := congrArg List.length (columnAt_reaching rows i)
  rwa [List.length_map, List.length_map, ← List.countP_eq_length_filter] at lengths

theorem columnAt_shorter (rows : List (List Char)) {i j : Nat} (before : i ≤ j) :
    (columnAt rows j).length ≤ (columnAt rows i).length := by
  rw [columnAt_length, columnAt_length]
  refine List.countP_mono_left fun row _ reaches => ?_
  rw [decide_eq_true_eq] at reaches ⊢
  omega

theorem columnAt_take (rows : List (List Char)) {i width : Nat} (inside : i < width) :
    columnAt (rows.map (List.take width)) i = columnAt rows i := by
  simp [columnAt, List.filterMap_map, inside]

theorem columns_length (rows : List (List Char)) :
    (columns rows).length = rows.head?.elim 0 List.length := by
  simp [columns_eq_map]

theorem columns_at {rows : List (List Char)} {i : Nat} (inside : i < (columns rows).length) :
    (columns rows)[i]? = some (columnAt rows i) := by
  rw [columns_length] at inside
  simp [columns_eq_map, inside]

theorem columns_shorten (rows : List (List Char)) :
    (columns rows).Pairwise fun c d => d.length ≤ c.length := by
  rw [columns_eq_map, List.pairwise_map]
  exact List.pairwise_lt_range.imp fun before => columnAt_shorter rows (Nat.le_of_lt before)

theorem columns_take (rows : List (List Char)) :
    columns (rows.map (List.take (rows.head?.elim 0 List.length))) = columns rows := by
  rw [columns_eq_map, columns_eq_map]
  cases rows with
  | nil => rfl
  | cons first rest =>
    simp only [List.head?_cons, List.head?_map, Option.map_some, Option.elim_some,
      List.take_length]
    exact List.map_congr_left fun i inside =>
      columnAt_take (first :: rest) (List.mem_range.mp inside)

def shown? (rows : List (List Char)) (j i : Nat) : Option Char := rows[j]?.bind (·[i]?)

theorem grid_ext {rows rows' : List (List Char)} (height : rows.length = rows'.length)
    (glyphs : ∀ j i, shown? rows j i = shown? rows' j i) : rows = rows' := by
  refine List.ext_getElem height fun j inside inside' => ?_
  refine List.ext_getElem? fun i => ?_
  simpa [shown?, List.getElem?_eq_getElem, inside, inside'] using glyphs j i

section
variable {rows : List (List Char)} {width : Nat} (widths : ∀ row ∈ rows, row.length = width)
include widths

theorem columnAt_whole {i : Nat} (inside : i < width) :
    (columnAt rows i).map some = rows.map (·[i]?) := by
  rw [columnAt_reaching, List.filter_eq_self.mpr]
  intro row member
  rw [widths row member, decide_eq_true_eq]
  exact inside

theorem columns_width (inhabited : rows ≠ []) : (columns rows).length = width := by
  rw [columns_length]
  cases rows with
  | nil => exact absurd rfl inhabited
  | cons first rest => exact widths first List.mem_cons_self

theorem columns_height : ∀ c ∈ columns rows, c.length = rows.length := by
  intro c member
  obtain ⟨i, inside, rfl⟩ := List.mem_iff_getElem.mp member
  have inhabited : rows ≠ [] := by
    rintro rfl
    exact absurd member List.not_mem_nil
  have reached : i < width := by rwa [columns_width widths inhabited] at inside
  have lengths := congrArg List.length (columnAt_whole widths reached)
  rw [List.length_map, List.length_map] at lengths
  have here := columns_at inside
  rw [List.getElem?_eq_getElem inside, Option.some.injEq] at here
  rw [here, lengths]

theorem columns_shown (i j : Nat) : shown? (columns rows) i j = shown? rows j i := by
  rcases eq_or_ne rows [] with rfl | inhabited
  · simp [shown?, columns]
  have wide := columns_width widths inhabited
  by_cases inside : i < width
  · have here := congrArg (·[j]?.bind id) (columnAt_whole widths inside)
    rw [shown?, columns_at (by omega), Option.bind_some]
    simpa [shown?, List.getElem?_map, Option.bind_map, Function.comp_def] using here
  · -- no row reaches so far, and there is no such column
    have nothing : ∀ row ∈ rows, row[i]? = none := by
      intro row member
      rw [List.getElem?_eq_none_iff, widths row member]
      omega
    rw [shown?, shown?, List.getElem?_eq_none (by omega), Option.bind_none, eq_comm,
      Option.bind_eq_none_iff]
    intro row place
    exact nothing row (List.mem_of_getElem? place)

theorem columns_columns (visible : 1 ≤ width) : columns (columns rows) = rows := by
  have heights := columns_height widths
  refine grid_ext ?_ fun j i => ?_
  · rcases eq_or_ne rows [] with rfl | inhabited
    · rfl
    · have wide : columns rows ≠ [] := by
        rw [← List.length_pos_iff, columns_width widths inhabited]
        exact visible
      exact columns_width heights wide
  · rw [columns_shown heights, columns_shown widths]

end

/-- There are as many columns as the first row has glyphs, and each column has the glyphs of the
    rows that reach so far, top to bottom. Columns never get longer from left to right, and nothing
    is read to the right of the first row's end. Where all rows are equally wide, row and position
    change places, and slicing the columns gives back the rows. -/
theorem columns_transpose (rows : List (List Char)) :
    (columns rows).length = rows.head?.elim 0 List.length ∧
      (∀ i c, (columns rows)[i]? = some c →
        c.map some = (rows.filter (i < ·.length)).map (·[i]?)) ∧
      (columns rows).Pairwise (fun c d => d.length ≤ c.length) ∧
      columns (rows.map (List.take (rows.head?.elim 0 List.length))) = columns rows ∧
      ∀ width, 1 ≤ width → (∀ row ∈ rows, row.length = width) →
        (∀ c ∈ columns rows, c.length = rows.length) ∧
        (∀ i j, shown? (columns rows) i j = shown? rows j i) ∧
        columns (columns rows) = rows := by
  refine ⟨columns_length rows, ?_, columns_shorten rows, columns_take rows, ?_⟩
  · intro i c place
    have inside := (List.getElem?_eq_some_iff.mp place).1
    rw [columns_at inside, Option.some.injEq] at place
    rw [← place]
    exact columnAt_reaching rows i
  · intro width visible widths
    exact ⟨columns_height widths, columns_shown widths, columns_columns widths visible⟩

example : columns ["abc".toList, "d".toList, "efgh".toList] =
    ["ade".toList, "bf".toList, "cg".toList] := by decide

def mosaic : List (List Char) := ["aé𝄞".toList, "→ ß".toList, "·X𝄢".toList, "ñ|i".toList]

theorem mosaic_transpose : (∀ row ∈ mosaic, row.length = 3) ∧
    columns mosaic = ["a→·ñ".toList, "é X|".toList, "𝄞ß𝄢i".toList] ∧
    (∀ c ∈ columns mosaic, c.length = 4) ∧
    shown? (columns mosaic) 2 0 = some '𝄞' ∧ columns (columns mosaic) = mosaic := by
  have widths : ∀ row ∈ mosaic, row.length = 3 := by decide
  have sliced : columns mosaic = ["a→·ñ".toList, "é X|".toList, "𝄞ß𝄢i".toList] := by decide
  obtain ⟨_, _, _, _, even⟩ := columns_transpose mosaic
  obtain ⟨heights, glyphs, back⟩ := even 3 (by decide) widths
  exact ⟨widths, sliced, heights, (glyphs 2 0).trans (by decide), back⟩

end CurveSketch
