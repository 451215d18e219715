import CurveSketch.Proofs.Interpolation

/- Sampling in exact rationals: a column is sampled at those midpoints of its cell that lie
   between the first value of the axis and the last. -/
namespace CurveSketch

theorem midpoints_rat (center step : ℚ) {count : ℕ} (some : 1 ≤ count) :
    (Cell.around center step).midpoints count = (List.range count).map fun (k : ℕ) =>
      center - ((count : ℚ) - 1 - 2 * (k : ℚ)) * (|step| / (2 * count)) := by
  have positive : (0 : ℚ) < count := by exact_mod_cast some
  unfold Cell.midpoints
  split
  · rename_i single
    subst single
    simp [Cell.around]
  · refine List.map_congr_left fun k _ => ?_
    have reach : half ((Cell.around center step).width / (count : ℚ)) = |step| / (2 * count) := by
      rw [Cell.around_width, half_rat]
      field_simp
    change center - half (Scalar.magnitude step) + half _ + (k : ℚ) * half _ * 2 = _
    rw [reach, rat_magnitude, half_rat]
    field_simp
    ring

theorem Segment.step_positive {g : Segment ℚ} (ascending : g.start.position < g.stop.position)
    (rising : g.start.value < g.stop.value) : 0 < g.step := by
  have grows : Axis.x.inOrder g.start.value g.stop.value = true := by
    rwa [Axis.inOrder, decide_eq_true_eq]
  have signed := step_signed ascending grows
  rwa [Axis.sign, one_mul] at signed

namespace Scale

/-- The midpoint number `k` of the cell at position `i`, whether it is in the domain or not. -/
def midpoint (s : Scale ℚ) (count i k : ℕ) : ℚ :=
  (s.cell i).center - ((count : ℚ) - 1 - 2 * k) * ((s.segment i).step / (2 * count))

section
variable {s : Scale ℚ} (ascending : s.toList.IsChain fun t u => t.position < u.position)
include ascending

theorem domain_rat : s.domain = (s.first.value, s.last.value) :=
  Prod.ext (center_of_tick ascending List.mem_cons_self)
    (center_of_tick ascending (List.mem_of_getLast? s.last_mem))

variable (rising : s.toList.IsChain fun t u => t.value < u.value)
include rising

theorem step_positive (i : ℕ) : 0 < (s.segment i).step :=
  Segment.step_positive (segment_of_chain ascending i) (segment_of_chain rising i)

theorem center_strictMono : StrictMono fun i => (s.cell i).center := by
  have ordered : s.toList.IsChain fun t u => Axis.x.inOrder t.value u.value = true := by
    simpa only [Axis.inOrder, decide_eq_true_eq] using rising
  intro i j before
  simpa only [Axis.inOrder, decide_eq_true_eq] using center_inOrder ascending ordered before

theorem cell_midpoints {count : ℕ} (some : 1 ≤ count) (i : ℕ) :
    (s.cell i).midpoints count = (List.range count).map (s.midpoint count i) := by
  rw [cell, Segment.cell, midpoints_rat _ _ some, abs_of_pos (step_positive ascending rising i)]
  rfl

theorem mem_samples {count : ℕ} (some : 1 ≤ count) (i : ℕ) (x : ℚ) :
    x ∈ s.samples count i ↔
      ∃ k < count, x = s.midpoint count i k ∧ s.first.value ≤ x ∧ x ≤ s.last.value := by
  simp only [samples, domain_rat ascending, cell_midpoints ascending rising some, List.mem_filter,
    List.mem_map, List.mem_range, decide_eq_true_eq]
  constructor
  · intro sampled
    obtain ⟨⟨k, below, rfl⟩, inside⟩ := sampled
    exact ⟨k, below, rfl, inside⟩
  · intro midpoint
    obtain ⟨k, below, rfl, inside⟩ := midpoint
    exact ⟨⟨k, below, rfl⟩, inside⟩

theorem slice_positive {count : ℕ} (some : 1 ≤ count) (i : ℕ) :
    0 < (s.segment i).step / (2 * count) := by
  have cast : (0 : ℚ) < count := by exact_mod_cast some
  exact div_pos (step_positive ascending rising i) (by linarith)

theorem midpoint_lt {count : ℕ} (some : 1 ≤ count) (i : ℕ) {k l : ℕ} (before : k < l) :
    s.midpoint count i k < s.midpoint count i l := by
  have order : (k : ℚ) < l := by exact_mod_cast before
  have slice := slice_positive ascending rising some i
  have shift := mul_lt_mul_of_pos_right order slice
  unfold midpoint
  linarith

theorem samples_ascend {count : ℕ} (some : 1 ≤ count) (i : ℕ) :
    (s.samples count i).Pairwise (· < ·) := by
  refine List.Pairwise.filter _ ?_
  rw [cell_midpoints ascending rising some, List.pairwise_map]
  exact List.pairwise_lt_range.imp fun before => midpoint_lt ascending rising some i before

end
end Scale
end CurveSketch
