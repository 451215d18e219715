import CurveSketch.Stroke
import Mathlib.Data.List.Sort

/- Runs of one glyph in a column: what the recursive search finds is the interval of rows that
   hold the glyph, and it finds it exactly when those rows are an interval. -/
namespace CurveSketch

namespace Column

theorem positionsFrom_member (glyph : Char) (start row : Nat) (column : Column) :
    row ∈ positionsFrom glyph start column ↔ ∃ k, column[k]? = some glyph ∧ row = start + k := by
  induction column generalizing start with
  | nil => simp [positionsFrom]
  | cons g rest ih =>
    have split : (∃ k, (g :: rest)[k]? = some glyph ∧ row = start + k) ↔
        (g = glyph ∧ row = start) ∨ ∃ k, rest[k]? = some glyph ∧ row = start + 1 + k := by
      constructor
      · intro place
        obtain ⟨k, found, place⟩ := place
        cases k with
        | zero => exact Or.inl ⟨by simpa using found, place⟩
        | succ k => exact Or.inr ⟨k, by simpa using found, by omega⟩
      · rintro (⟨same, place⟩ | ⟨k, found, place⟩)
        · exact ⟨0, by simp [same], place⟩
        · exact ⟨k + 1, by simpa using found, by omega⟩
    rw [split, positionsFrom]
    split
    · rename_i same
      simp [ih, same]
    · rename_i other
      simp [ih, other]

theorem positionsFrom_ascending (glyph : Char) (start : Nat) (column : Column) :
    (positionsFrom glyph start column).Pairwise (· < ·) := by
  induction column generalizing start with
  | nil => simp [positionsFrom]
  | cons g rest ih =>
    rw [positionsFrom]
    split
    · refine List.pairwise_cons.mpr ⟨?_, ih (start + 1)⟩
      intro row member
      obtain ⟨k, _, place⟩ := (positionsFrom_member glyph (start + 1) row rest).mp member
      omega
    · exact ih (start + 1)

theorem positions_member (column : Column) (glyph : Char) (row : Nat) :
    row ∈ column.positions glyph ↔ column[row]? = some glyph := by
  simp [positions, positionsFrom_member]

theorem positions_ascending (column : Column) (glyph : Char) :
    (column.positions glyph).Pairwise (· < ·) := positionsFrom_ascending glyph 0 column

theorem positions_length (column : Column) (glyph : Char) :
    (column.positions glyph).length = column.countP (· == glyph) := by
  have counted (row : Nat) :
      (positionsFrom glyph row column).length = column.countP (· == glyph) := by
    induction column generalizing row with
    | nil => rfl
    | cons g rest ih =>
      by_cases same : g = glyph <;> simp [positionsFrom, same, ih]
  exact counted 0

theorem positions_eq_iff (column : Column) (glyph : Char) {rows : List Nat}
    (ascending : rows.Pairwise (· < ·)) :
    column.positions glyph = rows ↔ ∀ row, column[row]? = some glyph ↔ row ∈ rows := by
  constructor
  · intro same row
    rw [← same, positions_member]
  · intro members
    refine List.Pairwise.eq_of_mem_iff (positions_ascending column glyph) ascending ?_
    intro row
    rw [positions_member, members]

theorem endOfChain_iff (row last : Nat) (rows : List Nat) :
    endOfChain? row rows = some last ↔
      row ≤ last ∧ rows = List.range' (row + 1) (last - row) := by
  induction rows generalizing row with
  | nil =>
    simp only [endOfChain?, Option.some.injEq, List.nil_eq, List.range'_eq_nil_iff]
    omega
  | cons next rest ih =>
    rw [endOfChain?]
    split
    · rename_i succeeds
      rw [ih]
      constructor
      · intro interval
        obtain ⟨le, same⟩ := interval
        refine ⟨by omega, ?_⟩
        rw [show last - row = last - next + 1 by omega, List.range'_succ, same, succeeds]
      · intro interval
        obtain ⟨le, same⟩ := interval
        have further : last ≠ row := by
          rintro rfl
          simp at same
        rw [show last - row = last - next + 1 by omega, List.range'_succ] at same
        exact ⟨by omega, by simpa [succeeds] using (List.cons.inj same).2⟩
    · rename_i gap
      simp only [reduceCtorEq, false_iff, not_and]
      intro le same
      cases more : last - row with
      | zero => simp [more] at same
      | succ k =>
        rw [more, List.range'_succ] at same
        exact gap (List.cons.inj same).1

theorem run_iff_positions (column : Column) (glyph : Char) (run : Run) :
    column.run? glyph = some run ↔
      run.top ≤ run.bottom ∧ column.positions glyph = List.range' run.top run.height := by
  unfold run?
  cases found : column.positions glyph with
  | nil => simp [Run.height]
  | cons top rest =>
    obtain ⟨first, last⟩ := run
    simp only [Option.map_eq_some_iff, endOfChain_iff, Run.mk.injEq, Run.height, List.range'_succ,
      List.cons.injEq]
    constructor
    · intro chain
      obtain ⟨bottom, ⟨le, same⟩, rfl, rfl⟩ := chain
      exact ⟨le, rfl, same⟩
    · intro interval
      obtain ⟨le, rfl, same⟩ := interval
      exact ⟨last, ⟨le, same⟩, rfl, rfl⟩

theorem run_iff_rows (column : Column) (glyph : Char) (run : Run) :
    column.run? glyph = some run ↔
      run.top ≤ run.bottom ∧
        ∀ row, column[row]? = some glyph ↔ run.top ≤ row ∧ row ≤ run.bottom := by
  rw [run_iff_positions]
  refine and_congr_right fun le => ?_
  rw [positions_eq_iff column glyph List.pairwise_lt_range']
  refine forall_congr' fun row => iff_congr Iff.rfl ?_
  rw [List.mem_range'_1, Run.height]
  omega

end Column

/-- The column shows the glyph in the rows of the run and blanks in all others. -/
structure Spans (column : Column) (glyph : Char) (run : Run) : Prop where
  ordered : run.top ≤ run.bottom
  inside : run.bottom < column.length
  glyphs : ∀ row, row < column.length →
    column[row]? = some (if run.top ≤ row ∧ row ≤ run.bottom then glyph else blank)

theorem onlyBlankAnd_iff (column : Column) (glyph : Char) :
    column.onlyBlankAnd glyph = true ↔
      ∀ (row : Nat) (g : Char), column[row]? = some g → g = blank ∨ g = glyph := by
  simp only [Column.onlyBlankAnd, List.all_eq_true, Bool.or_eq_true, beq_iff_eq,
    List.mem_iff_getElem?]
  constructor
  · intro all row g found
    exact all g ⟨row, found⟩
  · rintro all g ⟨row, found⟩
    exact all row g found

theorem isBlank_iff (column : Column) :
    column.isBlank = true ↔ ∀ (row : Nat) (g : Char), column[row]? = some g → g = blank := by
  simp only [Column.isBlank, List.all_eq_true, beq_iff_eq, List.mem_iff_getElem?]
  constructor
  · intro all row g found
    exact all g ⟨row, found⟩
  · rintro all g ⟨row, found⟩
    exact all row g found

namespace Spans
variable {column : Column} {glyph : Char} {run : Run}

theorem holds_glyph (spans : Spans column glyph run) (visible : glyph ≠ blank) (row : Nat) :
    column[row]? = some glyph ↔ run.top ≤ row ∧ row ≤ run.bottom := by
  constructor
  · intro found
    have within : row < column.length := (List.getElem?_eq_some_iff.mp found).1
    have drawn := spans.glyphs row within
    split at drawn
    · assumption
    · rw [found, Option.some.injEq] at drawn
      exact absurd drawn visible
  · intro inRun
    have drawn := spans.glyphs row (Nat.lt_of_le_of_lt inRun.2 spans.inside)
    rwa [if_pos inRun] at drawn

theorem onlyBlankAnd (spans : Spans column glyph run) : column.onlyBlankAnd glyph = true := by
  rw [onlyBlankAnd_iff]
  intro row g found
  have drawn := spans.glyphs row (List.getElem?_eq_some_iff.mp found).1
  rw [found, Option.some.injEq] at drawn
  split at drawn
  · exact Or.inr drawn
  · exact Or.inl drawn

theorem not_blank (spans : Spans column glyph run) (visible : glyph ≠ blank) :
    column.isBlank = false := by
  rw [← Bool.not_eq_true, isBlank_iff]
  intro blankOnly
  have top := (spans.holds_glyph visible run.top).mpr ⟨Nat.le_refl _, spans.ordered⟩
  exact visible (blankOnly run.top glyph top)

theorem glyph_unique {other : Char} {run' : Run} (spans : Spans column glyph run)
    (spans' : Spans column other run') (visible : glyph ≠ blank) : glyph = other := by
  have top := (spans.holds_glyph visible run.top).mpr ⟨Nat.le_refl _, spans.ordered⟩
  have choices := (onlyBlankAnd_iff column other).mp spans'.onlyBlankAnd run.top glyph top
  exact choices.resolve_left visible

end Spans

theorem spans_iff_run (column : Column) (glyph : Char) (visible : glyph ≠ blank) (run : Run) :
    Spans column glyph run ↔ column.onlyBlankAnd glyph = true ∧ column.run? glyph = some run := by
  rw [Column.run_iff_rows]
  constructor
  · intro spans
    exact ⟨spans.onlyBlankAnd, spans.ordered, spans.holds_glyph visible⟩
  · intro drawn
    obtain ⟨only, ordered, rows⟩ := drawn
    have bottom := (rows run.bottom).mpr ⟨ordered, Nat.le_refl _⟩
    refine ⟨ordered, (List.getElem?_eq_some_iff.mp bottom).1, ?_⟩
    intro row within
    split
    · rename_i inRun
      exact (rows row).mpr inRun
    · rename_i outside
      have found := List.getElem?_eq_getElem within
      rcases (onlyBlankAnd_iff column glyph).mp only row _ found with empty | same
      · rw [found, empty]
      · rw [same] at found
        exact absurd ((rows row).mp found) outside

end CurveSketch
