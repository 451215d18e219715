import CurveSketch.Proofs.Interpolation

/- Where neighbouring cells meet, in exact rationals. A cell is as wide as a step of the segment it is
   read from. Cells of equal steps share an edge; where a tick parts a larger step from a smaller
   one, half of the difference is left between them or covered twice. -/
namespace CurveSketch

/-- From the far edge of a cell to the near edge of a later one, the way the axis goes. Where the
    two overlap it is negative. -/
def Axis.gap (axis : Axis) (c later : Cell ℚ) : ℚ :=
  match axis with
  | .x => later.lower - c.upper
  | .y => c.lower - later.upper

theorem Axis.abs_of_signed {axis : Axis} {a : ℚ} (signed : 0 < axis.sign * a) :
    |a| = axis.sign * a := by
  cases axis with
  | x =>
    rw [sign, one_mul] at signed ⊢
    exact abs_of_pos signed
  | y =>
    rw [sign, neg_one_mul] at signed ⊢
    exact abs_of_neg (neg_pos.mp signed)

namespace Scale

theorem cell_centered (s : Scale ℚ) (i : ℕ) :
    (s.cell i).lower + (s.cell i).upper = 2 * (s.cell i).center := by
  rw [cell, Segment.upper_rat, Segment.lower_rat]
  change _ = 2 * (s.segment i).value i
  ring

theorem gap_of_centers (s : Scale ℚ) (axis : Axis) (i j : ℕ) :
    axis.gap (s.cell i) (s.cell j) = axis.sign * ((s.cell j).center - (s.cell i).center) -
      ((s.cell i).width + (s.cell j).width) / 2 := by
  have here := s.cell_centered i
  have there := s.cell_centered j
  unfold Cell.width
  cases axis with
  | x =>
    rw [Axis.gap, Axis.sign]
    linarith
  | y =>
    rw [Axis.gap, Axis.sign]
    linarith

section
variable {s : Scale ℚ} {axis : Axis}
  (ascending : s.toList.IsChain fun t u => t.position < u.position)
  (ordered : s.toList.IsChain fun t u => axis.inOrder t.value u.value = true)
include ascending ordered

theorem gap_next (j : ℕ) : axis.gap (s.cell j) (s.cell (j + 1)) =
    ((s.cell j).width - (s.cell (j + 1)).width) / 2 := by
  have signed := Segment.step_signed (segment_of_chain ascending j) (segment_of_chain ordered j)
  have apart : axis.sign * ((s.cell (j + 1)).center - (s.cell j).center) = (s.cell j).width := by
    rw [center_next ascending j, add_sub_cancel_left, cell_width, Axis.abs_of_signed signed]
  rw [gap_of_centers, apart]
  ring

theorem gap_off_ticks {j : ℕ}
    (off : ∀ t u v, [t, u, v] <:+: s.toList → j + 1 ≠ u.position) :
    axis.gap (s.cell j) (s.cell (j + 1)) = 0 := by
  rcases segment_turns ascending j with same | ⟨t, u, v, consecutive, here, _, _⟩
  · rw [gap_next ascending ordered, cell_width, cell_width, same, sub_self, zero_div]
  · exact absurd here (off t u v consecutive)

theorem gap_at_tick {t u v : Tick ℚ} (consecutive : [t, u, v] <:+: s.toList) {j : ℕ}
    (here : j + 1 = u.position) : axis.gap (s.cell j) (s.cell (j + 1)) =
      (|(Segment.mk t u).step| - |(Segment.mk u v).step|) / 2 := by
  obtain ⟨i, place, left, right⟩ := segments_at_turn ascending consecutive
  obtain rfl : i = j := by omega
  rw [gap_next ascending ordered, cell_width, cell_width, left, right]

end
end Scale

/-- Whichever way an axis runs, every cell is one step of its segment wide, half of it on either side
    of the center. The next cell begins half of what the two differ in width beyond its end. So
    neighbouring cells meet exactly at every position but those of the ticks between others, and
    there too if the step stays the same; a smaller step leaves a gap and a larger one makes the
    cells overlap. -/
theorem neighbouring_cells_meet (axis : Axis) (s : Scale ℚ)
    (ascending : s.toList.IsChain fun t u => t.position < u.position)
    (ordered : s.toList.IsChain fun t u => axis.inOrder t.value u.value = true) (j : ℕ) :
    (s.cell j).width = |(s.segment j).step| ∧
    (s.cell j).lower + (s.cell j).upper = 2 * (s.cell j).center ∧
    axis.gap (s.cell j) (s.cell (j + 1)) =
      (|(s.segment j).step| - |(s.segment (j + 1)).step|) / 2 ∧
    ((∀ t u v, [t, u, v] <:+: s.toList → j + 1 ≠ u.position) →
      axis.gap (s.cell j) (s.cell (j + 1)) = 0) ∧
    ∀ t u v, [t, u, v] <:+: s.toList → j + 1 = u.position →
      (axis.gap (s.cell j) (s.cell (j + 1)) = 0 ↔
        |(Segment.mk t u).step| = |(Segment.mk u v).step|) ∧
      (0 < axis.gap (s.cell j) (s.cell (j + 1)) ↔
        |(Segment.mk u v).step| < |(Segment.mk t u).step|) ∧
      (axis.gap (s.cell j) (s.cell (j + 1)) < 0 ↔
        |(Segment.mk t u).step| < |(Segment.mk u v).step|) := by
  refine ⟨s.cell_width j, s.cell_centered j, ?_, Scale.gap_off_ticks ascending ordered, ?_⟩
  · rw [Scale.gap_next ascending ordered, Scale.cell_width, Scale.cell_width]
  · intro t u v consecutive here
    rw [Scale.gap_at_tick ascending ordered consecutive here]
    refine ⟨?_, ?_, ?_⟩
    · constructor <;> intro <;> linarith
    · constructor <;> intro <;> linarith
    · constructor <;> intro <;> linarith

def cliff : Scale ℚ := ⟨⟨20, 0⟩, ⟨0, 2⟩, [⟨-4, 6⟩]⟩

theorem cliff_gap :
    (cliff.toList.IsChain fun t u => t.position < u.position) ∧
    (cliff.toList.IsChain fun t u => Axis.y.inOrder t.value u.value = true) ∧
    (cliff.cell 1).lower = 5 ∧ (cliff.cell 2).upper = 1 / 2 ∧
    0 < Axis.y.gap (cliff.cell 1) (cliff.cell 2) ∧
    Axis.y.gap (cliff.cell 1) (cliff.cell 2) = 9 / 2 ∧
    Axis.y.gap (cliff.cell 7) (cliff.cell 8) = 0 := by
  have ascending : cliff.toList.IsChain fun t u => t.position < u.position := by
    simp [cliff, Scale.toList]
  have falling : cliff.toList.IsChain fun t u => Axis.y.inOrder t.value u.value = true := by
    simp [cliff, Scale.toList, Axis.inOrder_iff, Axis.sign]
  obtain ⟨_, _, law, _, turns⟩ := neighbouring_cells_meet .y cliff ascending falling 1
  obtain ⟨_, _, _, straight, _⟩ := neighbouring_cells_meet .y cliff ascending falling 7
  obtain ⟨_, shrinks, _⟩ := turns ⟨20, 0⟩ ⟨0, 2⟩ ⟨-4, 6⟩ (List.infix_refl _) rfl
  refine ⟨ascending, falling, by decide +kernel, by decide +kernel, ?_, ?_, straight ?_⟩
  · exact shrinks.mpr (by norm_num [Segment.step_rat])
  · exact law.trans (by norm_num [cliff, Scale.segment, Scale.bracket, Segment.step_rat])
  · intro t u v consecutive
    cases consecutive.eq_of_length rfl
    decide

end CurveSketch
