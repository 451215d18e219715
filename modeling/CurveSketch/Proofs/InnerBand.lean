import CurveSketch.Proofs.Acceptance
import CurveSketch.Proofs.Interpolation
import CurveSketch.Proofs.Trials

/- The inner band of a thick line, in exact rationals. Its lower edge always lies inside the outer
   range. Its upper edge does so only when the labels below the top row do not fall away too
   fast. -/
namespace CurveSketch

namespace Scale
variable {down : Scale ℚ}

/-- How far the value falls from one row to the next. -/
def drop (down : Scale ℚ) (row : ℕ) : ℚ := |(down.segment row).step|

theorem lower_rat (down : Scale ℚ) (row : ℕ) :
    (down.cell row).lower = (down.cell row).center - down.drop row / 2 :=
  Segment.lower_rat (down.segment row) row

theorem upper_rat (down : Scale ℚ) (row : ℕ) :
    (down.cell row).upper = (down.cell row).center + down.drop row / 2 :=
  Segment.upper_rat (down.segment row) row

section
variable (ascending : down.toList.IsChain fun t u => t.position < u.position)
  (descending : down.toList.IsChain fun t u => u.value < t.value)
include ascending descending

theorem drop_positive (row : ℕ) : 0 < down.drop row :=
  abs_pos.mpr (step_negative ascending descending row).ne

theorem center_falls (row : ℕ) :
    (down.cell (row + 1)).center = (down.cell row).center - down.drop row := by
  have negative := step_negative ascending descending row
  rw [center_next ascending row, drop, abs_of_neg negative]
  ring

theorem lower_falls (row : ℕ) : (down.cell (row + 1)).lower < (down.cell row).lower := by
  have here := drop_positive ascending descending row
  have next := drop_positive ascending descending (row + 1)
  rw [lower_rat, lower_rat, center_falls ascending descending row]
  linarith

theorem lower_antitone {row row' : ℕ} (below : row ≤ row') :
    (down.cell row').lower ≤ (down.cell row).lower := by
  induction row', below using Nat.le_induction with
  | base => exact le_refl _
  | succ row' _ ih => exact (lower_falls ascending descending row').le.trans ih

theorem upper_next_le_iff (row : ℕ) :
    (down.cell (row + 1)).upper ≤ (down.cell row).upper ↔
      down.drop (row + 1) ≤ 3 * down.drop row := by
  rw [upper_rat, upper_rat, center_falls ascending descending row]
  constructor <;> intro bound <;> linarith

theorem upper_next_lt_iff (row : ℕ) :
    (down.cell (row + 1)).upper < (down.cell row).upper ↔
      down.drop (row + 1) < 3 * down.drop row := by
  rw [upper_rat, upper_rat, center_falls ascending descending row]
  constructor <;> intro bound <;> linarith

theorem inner_proper {run : Run} (thick : run.top + 2 ≤ run.bottom) :
    (down.cell run.bottom).lower < (down.cell (run.bottom - 1)).lower ∧
      (down.cell (run.bottom - 1)).lower < (down.cell (run.top + 1)).upper := by
  have last : run.bottom - 1 + 1 = run.bottom := by omega
  have falls := lower_falls ascending descending (run.bottom - 1)
  rw [last] at falls
  have second : (down.cell (run.bottom - 1)).lower ≤ (down.cell (run.top + 1)).lower :=
    lower_antitone ascending descending (by omega)
  have proper : (down.cell (run.top + 1)).lower < (down.cell (run.top + 1)).upper := by
    have positive := drop_positive ascending descending (run.top + 1)
    rw [lower_rat, upper_rat]
    linarith
  exact ⟨falls, second.trans_lt proper⟩

end
end Scale

theorem spanning_satisfiable_iff {low high innerLow innerHigh : ℚ} (bottom : low < innerLow)
    (inner : innerLow < innerHigh) {n : ℕ} (two : 2 ≤ n) :
    (∃ ys : List ℚ, ys.length = n ∧ (Rule.spanning low high innerLow innerHigh).Met ys) ↔
      innerHigh < high := by
  constructor
  · intro outputs
    obtain ⟨ys, _, admits, above, _⟩ := outputs
    obtain ⟨y, member, high'⟩ := above
    have bounds : low ≤ y ∧ y ≤ high := admits y member
    exact lt_of_lt_of_le (a := innerHigh) high' bounds.2
  · intro room
    have order : low ≤ high := (bottom.trans (inner.trans room)).le
    refine ⟨high :: List.replicate (n - 1) low, by simp; omega, ?_, ?_⟩
    · intro y member
      rcases List.mem_cons.mp member with top | rest
      · rw [top]
        exact ⟨order, le_refl high⟩
      · rw [List.eq_of_mem_replicate rest]
        exact ⟨le_refl low, order⟩
    · have some : low ∈ List.replicate (n - 1) low :=
        List.mem_replicate.mpr ⟨by omega, rfl⟩
      exact ⟨⟨high, by simp, room⟩, ⟨low, List.mem_cons_of_mem _ some, bottom⟩⟩

theorem thick_line_of_spanning {α : Type} [Scalar α] {s : Sketch α} {samples : ℕ}
    {cs : List (Constraint α)} (accepted : (s.convert ⟨samples⟩).result = .ok cs)
    {c : Constraint α} (member : c ∈ cs) {low high innerLow innerHigh : α}
    (spanning : c.rule = .spanning low high innerLow innerHigh) :
    ∃ down, s.down = .ok down ∧ ∃ i < s.ruler.marks.length, ∃ run : Run,
      Spans (s.column i) 'I' run ∧ run.top + 2 ≤ run.bottom ∧
        low = (down.cell run.bottom).lower ∧ high = (down.cell run.top).upper ∧
        innerLow = (down.cell (run.bottom - 1)).lower ∧
        innerHigh = (down.cell (run.top + 1)).upper := by
  obtain ⟨across, down, scales, reads⟩ := (s.convert_ok_iff samples cs).mp accepted
  obtain ⟨_, _, _, isDown⟩ := (s.scales_ok_iff samples across down).mp scales
  refine ⟨down, isDown, ?_⟩
  have origin := (Sketch.constraints_of_strokes scales reads fun c =>
    ∀ low high innerLow innerHigh, c.rule = .spanning low high innerLow innerHigh →
      ∃ i < s.ruler.marks.length, ∃ run : Run, Spans (s.column i) 'I' run ∧
        run.top + 2 ≤ run.bottom ∧
        low = (down.cell run.bottom).lower ∧ high = (down.cell run.top).upper ∧
        innerLow = (down.cell (run.bottom - 1)).lower ∧
        innerHigh = (down.cell (run.top + 1)).upper).mpr ?_
  · exact origin c member low high innerLow innerHigh spanning
  · intro i inside stroke shows low high innerLow innerHigh rule
    cases stroke with
    | point row => cases rule
    | band run => cases rule
    | line run =>
      simp only [Stroke.rule] at rule
      split at rule
      · cases rule
      · rename_i tall
        cases rule
        have thick : run.top + 2 ≤ run.bottom := by
          simp only [Run.height, Stroke.thick] at tall
          omega
        exact ⟨i, inside, run, shows, thick, rfl, rfl, rfl, rfl⟩

/-- In every accepted picture the inner band of a thick line is proper, and it starts above the
    bottom of the outer range. It ends below the top, so that some outputs fill the line, only
    when the second row falls by less than three times what the top row does. -/
theorem inner_band_decided (s : Sketch ℚ) (samples : ℕ) :
    ∀ cs, (s.convert ⟨samples⟩).result = .ok cs →
      ∀ c ∈ cs, ∀ low high innerLow innerHigh, c.rule = .spanning low high innerLow innerHigh →
        ∃ down, s.down = .ok down ∧ ∃ i < s.ruler.marks.length, ∃ run : Run,
          Spans (s.column i) 'I' run ∧ c.rule = (Stroke.line run).rule down ∧
          low < innerLow ∧ innerLow < innerHigh ∧
          (innerHigh ≤ high ↔ down.drop (run.top + 1) ≤ 3 * down.drop run.top) ∧
          ∀ n, 2 ≤ n → ((∃ ys : List ℚ, ys.length = n ∧ c.rule.Met ys) ↔
            down.drop (run.top + 1) < 3 * down.drop run.top) := by
  intro cs accepted c member low high innerLow innerHigh spanning
  obtain ⟨down, isDown, i, inside, run, spans, thick, rfl, rfl, rfl, rfl⟩ :=
    thick_line_of_spanning accepted member spanning
  have laid := Sketch.down_laid isDown
  have ascending := laid.ascending
  have descending : down.toList.IsChain fun t u => u.value < t.value := by
    simpa only [rat_order] using laid.ordered
  obtain ⟨bottom, inner⟩ := Scale.inner_proper ascending descending thick
  refine ⟨down, isDown, i, inside, run, spans, ?_, bottom, inner,
    Scale.upper_next_le_iff ascending descending run.top, ?_⟩
  · have tall : ¬ run.height < Stroke.thick := by
      unfold Run.height Stroke.thick
      omega
    rw [spanning, Stroke.rule, if_neg tall]
  · intro n two
    rw [spanning, spanning_satisfiable_iff bottom inner two]
    exact Scale.upper_next_lt_iff ascending descending run.top

def steepLine : Sketch ℚ :=
  ⟨[⟨some 4, ['I', ' ']⟩, ⟨some 3, ['I', ' ']⟩, ⟨some (-2), ['I', ' ']⟩], ⟨['|', '|'], [0, 1]⟩⟩

theorem steep_line_converts : (steepLine.convert ⟨4⟩).result =
    .ok [⟨[1 / 8, 3 / 8], .spanning (-9 / 2) (9 / 2) (1 / 2) (11 / 2)⟩] := by
  decide +kernel

theorem steep_rule_unmet (ys : List ℚ) :
    ¬ (Rule.spanning (-9 / 2) (9 / 2) (1 / 2) (11 / 2) : Rule ℚ).Met ys := by
  intro met
  obtain ⟨admits, above, _⟩ := met
  obtain ⟨y, member, high⟩ := above
  have bounds : (-9 / 2 : ℚ) ≤ y ∧ y ≤ 9 / 2 := admits y member
  have above_range : (11 / 2 : ℚ) < y := high
  linarith [bounds.2]

theorem steep_line_unfillable :
    (steepLine.convert ⟨4⟩).result =
        .ok [⟨[1 / 8, 3 / 8], .spanning (-9 / 2) (9 / 2) (1 / 2) (11 / 2)⟩] ∧
      ¬ (11 / 2 : ℚ) ≤ 9 / 2 ∧
      ∀ ys : List ℚ, ¬ (Rule.spanning (-9 / 2) (9 / 2) (1 / 2) (11 / 2)).Met ys :=
  ⟨steep_line_converts, by norm_num, steep_rule_unmet⟩

theorem steep_line_falls :
    ∃ down, steepLine.down = .ok down ∧ ∃ i < steepLine.ruler.marks.length, ∃ run : Run,
      Spans (steepLine.column i) 'I' run ∧
        3 * down.drop run.top ≤ down.drop (run.top + 1) := by
  obtain ⟨down, isDown, i, inside, run, spans, _, _, _, _, fillable⟩ :=
    inner_band_decided steepLine 4 _ steep_line_converts _ (List.mem_singleton_self _)
      (-9 / 2) (9 / 2) (1 / 2) (11 / 2) rfl
  refine ⟨down, isDown, i, inside, run, spans, not_lt.mp ?_⟩
  intro close
  obtain ⟨ys, _, met⟩ := (fillable 2 (le_refl 2)).mpr close
  exact steep_rule_unmet ys met

end CurveSketch
