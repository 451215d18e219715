import CurveSketch.Proofs.Runs

/- The search for a run, in any column and for any glyph. It compares neighbouring rows only, and
   yet what it finds are all the rows that hold the glyph. It fails where the glyph does not occur
   and where another one stands between two of it, and nowhere else. Other glyphs before and behind
   do not change what is found. -/
namespace CurveSketch

def Run.lowered (r : Run) (k : Nat) : Run := ⟨r.top + k, r.bottom + k⟩

namespace Column

/-- Between two rows that hold the glyph another one stands. -/
def Interrupted (column : Column) (glyph : Char) : Prop :=
  ∃ (above between below : Nat) (other : Char), above < between ∧ between < below ∧
    column[above]? = some glyph ∧ column[between]? = some other ∧ other ≠ glyph ∧
    column[below]? = some glyph

theorem positionsFrom_append (glyph : Char) (start : Nat) (before after : Column) :
    positionsFrom glyph start (before ++ after) =
      positionsFrom glyph start before ++ positionsFrom glyph (start + before.length) after := by
  induction before generalizing start with
  | nil => rfl
  | cons g rest ih =>
    have place : start + (g :: rest).length = start + 1 + rest.length := by
      rw [List.length_cons]
      omega
    rw [place, List.cons_append, positionsFrom, positionsFrom, ih]
    split <;> rfl

theorem positionsFrom_lowered (glyph : Char) (start k : Nat) (column : Column) :
    positionsFrom glyph (start + k) column = (positionsFrom glyph start column).map (· + k) := by
  induction column generalizing start with
  | nil => rfl
  | cons g rest ih =>
    have later := ih (start + 1)
    rw [Nat.add_right_comm] at later
    rw [positionsFrom, positionsFrom, later]
    split <;> rfl

theorem positionsFrom_absent {glyph : Char} {column : Column} (absent : glyph ∉ column)
    (start : Nat) : positionsFrom glyph start column = [] := by
  refine List.eq_nil_iff_forall_not_mem.mpr fun row member => ?_
  obtain ⟨k, found, _⟩ := (positionsFrom_member glyph start row column).mp member
  exact absent (List.mem_of_getElem? found)

theorem positions_within {glyph : Char} {before after : Column} (column : Column)
    (above : glyph ∉ before) (below : glyph ∉ after) :
    (before ++ column ++ after).positions glyph =
      (column.positions glyph).map (· + before.length) := by
  simp only [positions, positionsFrom_append, positionsFrom_absent above,
    positionsFrom_absent below, List.nil_append, List.append_nil]
  exact positionsFrom_lowered glyph 0 before.length column

theorem endOfChain_lowered (row k : Nat) (rows : List Nat) :
    endOfChain? (row + k) (rows.map (· + k)) = (endOfChain? row rows).map (· + k) := by
  induction rows generalizing row with
  | nil => rfl
  | cons next rest ih =>
    rw [List.map_cons, endOfChain?, endOfChain?]
    by_cases successor : next = row + 1
    · rw [if_pos (by omega), if_pos successor]
      exact ih next
    · rw [if_neg (by omega), if_neg successor]
      rfl

theorem run_within {glyph : Char} {before after : Column} (column : Column) (above : glyph ∉ before)
    (below : glyph ∉ after) :
    (before ++ column ++ after).run? glyph = (column.run? glyph).map (·.lowered before.length) := by
  rw [run?, run?, positions_within column above below]
  cases column.positions glyph with
  | nil => rfl
  | cons top rest =>
    simp only [List.map_cons, endOfChain_lowered, Option.map_map]
    rfl

theorem missing_of_broken {row : Nat} {rows : List Nat}
    (ascending : (row :: rows).Pairwise (· < ·)) (broken : endOfChain? row rows = none) :
    ∃ above ∈ row :: rows, above + 1 ∉ row :: rows ∧ ∃ below ∈ row :: rows, above + 1 < below := by
  induction rows generalizing row with
  | nil => simp [endOfChain?] at broken
  | cons next rest ih =>
    obtain ⟨first, later⟩ := List.pairwise_cons.mp ascending
    have ahead : row < next := first next (by simp)
    rw [endOfChain?] at broken
    by_cases successor : next = row + 1
    · rw [if_pos successor] at broken
      obtain ⟨above, member, missing, below, member', further⟩ := ih later broken
      have behind : row < above := first above member
      refine ⟨above, List.mem_cons_of_mem row member, ?_, below,
        List.mem_cons_of_mem row member', further⟩
      rw [List.mem_cons, not_or]
      exact ⟨by omega, missing⟩
    · refine ⟨row, by simp, ?_, next, by simp, by omega⟩
      have beyond : ∀ r ∈ rest, next < r := (List.pairwise_cons.mp later).1
      intro member
      rcases List.mem_cons.mp member with same | member
      · omega
      · rcases List.mem_cons.mp member with same | member
        · exact successor same.symm
        · have := beyond (row + 1) member
          omega

theorem run_some_iff (column : Column) (glyph : Char) (run : Run) :
    column.run? glyph = some run ↔
      glyph ∈ column ∧ ∀ row, column[row]? = some glyph ↔ run.top ≤ row ∧ row ≤ run.bottom := by
  rw [run_iff_rows]
  refine and_congr_left fun rows => ⟨fun ordered => ?_, fun occurs => ?_⟩
  · exact List.mem_of_getElem? ((rows run.top).mpr ⟨Nat.le_refl _, ordered⟩)
  · obtain ⟨row, found⟩ := List.mem_iff_getElem?.mp occurs
    obtain ⟨low, high⟩ := (rows row).mp found
    omega

theorem run_none_iff (column : Column) (glyph : Char) :
    column.run? glyph = none ↔ glyph ∉ column ∨ column.Interrupted glyph := by
  constructor
  · intro failed
    rw [run?] at failed
    cases rows : column.positions glyph with
    | nil =>
      left
      intro occurs
      obtain ⟨row, found⟩ := List.mem_iff_getElem?.mp occurs
      have member := (positions_member column glyph row).mpr found
      simp [rows] at member
    | cons top rest =>
      right
      simp only [rows, Option.map_eq_none_iff] at failed
      have ascending := positions_ascending column glyph
      rw [rows] at ascending
      obtain ⟨above, member, missing, below, member', further⟩ :=
        missing_of_broken ascending failed
      rw [← rows, positions_member] at member missing member'
      have inside : above + 1 < column.length :=
        further.trans (List.getElem?_eq_some_iff.mp member').1
      have shown := List.getElem?_eq_getElem inside
      refine ⟨above, above + 1, below, _, by omega, further, member, shown, ?_, member'⟩
      intro same
      exact missing (shown.trans (congrArg some same))
  · intro none
    refine Option.eq_none_iff_forall_ne_some.mpr fun run found => ?_
    obtain ⟨occurs, rows⟩ := (run_some_iff column glyph run).mp found
    rcases none with
      absent | ⟨above, between, below, other, first, second, start, odd, differs, stop⟩
    · exact absent occurs
    · have low := (rows above).mp start
      have high := (rows below).mp stop
      have held := (rows between).mpr ⟨by omega, by omega⟩
      rw [odd, Option.some.injEq] at held
      exact differs held

theorem run_count {column : Column} {glyph : Char} {run : Run}
    (found : column.run? glyph = some run) :
    run.bottom - run.top + 1 = column.count glyph := by
  obtain ⟨_, rows⟩ := (run_iff_positions column glyph run).mp found
  have length := congrArg List.length rows
  rw [positions_length, List.length_range'] at length
  exact length.symm

/-- The rows that hold a glyph are listed from top to bottom, none twice. A run is found exactly
    where they are all the rows from one to another, and no run exactly where there are none or
    another glyph interrupts them. Other glyphs before and behind only move what is found. -/
theorem runs_searched (column : Column) (glyph : Char) :
    (∀ row, row ∈ column.positions glyph ↔ column[row]? = some glyph) ∧
    (column.positions glyph).Pairwise (· < ·) ∧
    (column.positions glyph).length = column.count glyph ∧
    (∀ run, column.run? glyph = some run ↔
      glyph ∈ column ∧ ∀ row, column[row]? = some glyph ↔ run.top ≤ row ∧ row ≤ run.bottom) ∧
    (∀ run, column.run? glyph = some run → run.bottom - run.top + 1 = column.count glyph) ∧
    (column.run? glyph = none ↔ glyph ∉ column ∨ column.Interrupted glyph) ∧
    ∀ before after : Column, glyph ∉ before → glyph ∉ after →
      (before ++ column ++ after).run? glyph = (column.run? glyph).map (·.lowered before.length) :=
  ⟨positions_member column glyph, positions_ascending column glyph, positions_length column glyph,
    run_some_iff column glyph, fun _ => run_count, run_none_iff column glyph,
    fun _ _ => run_within column⟩

theorem masts_searched :
    run? " III ".toList 'I' = some ⟨1, 3⟩ ∧ run? "iX III X".toList 'I' = some ⟨3, 5⟩ ∧
      run? "IXI".toList 'I' = none ∧ run? "iIXI".toList 'I' = none := by
  obtain ⟨_, _, _, _, _, _, around⟩ := runs_searched " III ".toList 'I'
  obtain ⟨_, _, _, _, _, fails, around'⟩ := runs_searched "IXI".toList 'I'
  have mast : run? " III ".toList 'I' = some ⟨1, 3⟩ := by decide
  have broken : run? "IXI".toList 'I' = none :=
    fails.mpr (Or.inr ⟨0, 1, 2, 'X', by decide, by decide, rfl, rfl, by decide, rfl⟩)
  refine ⟨mast, ?_, broken, ?_⟩
  · have moved := around ['i', 'X'] ['X'] (by decide) (by decide)
    rw [mast] at moved
    exact moved
  · have moved := around' ['i'] [] (by decide) (by decide)
    rw [broken] at moved
    exact moved

end Column
end CurveSketch
