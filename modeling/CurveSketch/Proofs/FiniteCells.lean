import CurveSketch.Proofs.Climbing
import CurveSketch.Proofs.DoubleArithmetic
import CurveSketch.Proofs.Segments

/- Cells measured in doubles: what a finite center or width was computed from is finite, and the
   numbers are the exact ones, rounded at each operation. -/
namespace CurveSketch

theorem worth_two : (two : Float).isFinite = true ∧ worth two = 2 := by
  have value := worth_small_nat (n := 2) (by norm_num)
  exact_mod_cast value

theorem worth_half {a : Float} (finite : (half a).isFinite = true) :
    a.isFinite = true ∧ worth (half a) = rounded (worth a / 2) := by
  obtain ⟨finite_two, value⟩ := worth_two
  have parts := worth_div finite_two (by rw [value]; norm_num) finite
  rwa [value] at parts

namespace Segment

/-- The center of a cell and all it was computed from, in exact numbers. -/
structure Centered (g : Segment Float) (i : ℕ) : Prop where
  start_finite : g.start.value.isFinite = true
  stop_finite : g.stop.value.isFinite = true
  step_finite : g.step.isFinite = true
  center_finite : (g.cell i).center.isFinite = true
  step : worth g.step = rounded (rounded (worth g.stop.value - worth g.start.value) /
    (g.stop.position - g.start.position : ℕ))
  center : worth (g.cell i).center =
    along (worth g.start.value) (worth g.step) (i - g.start.position)

structure Measured (g : Segment Float) (i : ℕ) : Prop where
  lower_finite : (g.cell i).lower.isFinite = true
  upper_finite : (g.cell i).upper.isFinite = true
  width_finite : (g.cell i).width.isFinite = true
  lower : worth (g.cell i).lower =
    rounded (worth (g.cell i).center - rounded (|worth g.step| / 2))
  upper : worth (g.cell i).upper =
    rounded (worth (g.cell i).center + rounded (|worth g.step| / 2))
  width : worth (g.cell i).width = rounded (worth (g.cell i).upper - worth (g.cell i).lower)

variable {g : Segment Float} {i : ℕ}

theorem step_worth (ascending : g.start.position < g.stop.position)
    (few : g.stop.position ≤ 2 ^ 53) (finite : g.step.isFinite = true) :
    g.start.value.isFinite = true ∧ g.stop.value.isFinite = true ∧
      worth g.step = rounded (rounded (worth g.stop.value - worth g.start.value) /
        (g.stop.position - g.start.position : ℕ)) := by
  obtain ⟨finite_count, count⟩ :=
    worth_small_nat (n := g.stop.position - g.start.position) (by omega)
  have nonzero : worth (Float.ofNat (g.stop.position - g.start.position)) ≠ 0 := by
    rw [count]
    exact_mod_cast (by omega : g.stop.position - g.start.position ≠ 0)
  obtain ⟨finite_difference, step⟩ := worth_div finite_count nonzero finite
  obtain ⟨stop, start, difference⟩ := worth_sub finite_difference
  rw [count, difference] at step
  exact ⟨start, stop, step⟩

theorem rows_reading (inside : g.start.position ≤ i) (few : i ≤ 2 ^ 53) :
    reading ((i : Float) - (g.start.position : Float)) =
      .number ((i - g.start.position : ℕ) : ℚ) := by
  obtain ⟨here_finite, here⟩ := worth_small_nat (n := i) (by omega)
  obtain ⟨there_finite, there⟩ := worth_small_nat (n := g.start.position) (by omega)
  have difference : worth (Float.ofNat i) - worth (Float.ofNat g.start.position) =
      ((i - g.start.position : ℕ) : ℚ) := by
    rw [here, there, Nat.cast_sub inside]
  have value := reading_sub (Float.ofNat i) (Float.ofNat g.start.position)
  rw [reading_worth here_finite, reading_worth there_finite] at value
  refine value.trans ?_
  rw [Extended.neg, Extended.add, ← sub_eq_add_neg, difference]
  exact stored_nat (by omega)

theorem center_reading (inside : g.start.position ≤ i) (few : i ≤ 2 ^ 53) :
    reading (g.cell i).center =
      (reading g.start.value).add ((Extended.number ((i - g.start.position : ℕ) : ℚ)).mul
        (reading g.step)) := by
  refine (reading_add _ _).trans ?_
  rw [reading_mul, rows_reading inside few]

theorem centered_of_finite (inside : g.start.position ≤ i) (few : i ≤ 2 ^ 53)
    (ascending : g.start.position < g.stop.position) (stop_few : g.stop.position ≤ 2 ^ 53)
    (finite : (g.cell i).center.isFinite = true) : g.Centered i := by
  obtain ⟨_, finite_product, center⟩ := worth_add finite
  obtain ⟨_, step_finite, product⟩ := worth_mul finite_product
  rw [(finite_of_reading (rows_reading inside few)).2] at product
  rw [product] at center
  obtain ⟨start_finite, stop_finite, step⟩ := step_worth ascending stop_few step_finite
  exact ⟨start_finite, stop_finite, step_finite, finite, step, center⟩

theorem measured_of_finite (finite : (g.cell i).width.isFinite = true) : g.Measured i := by
  obtain ⟨upper_finite, lower_finite, width⟩ := worth_sub finite
  obtain ⟨_, reach_finite, upper⟩ := worth_add upper_finite
  obtain ⟨_, _, lower⟩ := worth_sub lower_finite
  obtain ⟨size_finite, reach⟩ := worth_half reach_finite
  have size : worth (Scalar.magnitude g.step) = |worth g.step| := (worth_abs size_finite).2
  rw [size] at reach
  rw [reach] at upper lower
  exact ⟨lower_finite, upper_finite, finite, lower, upper, width⟩

theorem center_between (measured : g.Measured i) :
    worth (g.cell i).lower ≤ worth (g.cell i).center ∧
      worth (g.cell i).center ≤ worth (g.cell i).upper := by
  have reach : 0 ≤ rounded (|worth g.step| / 2) :=
    le_rounded representable_zero (div_nonneg (abs_nonneg _) zero_le_two)
  rw [measured.lower, measured.upper]
  exact ⟨rounded_le (worth_representable _) (by linarith),
    le_rounded (worth_representable _) (by linarith)⟩

theorem lower_of_narrow (measured : g.Measured i) (none : worth (g.cell i).width ≤ 0) :
    worth (g.cell i).width = 0 ∧ worth (g.cell i).lower = worth (g.cell i).center := by
  obtain ⟨below, above⟩ := center_between measured
  have width := measured.width
  have nonneg := le_rounded representable_zero (sub_nonneg.mpr (below.trans above))
  refine ⟨none.antisymm (by rwa [width]), below.eq_of_not_lt fun apart => ?_⟩
  have step := quantum_step (worth_representable _) (worth_representable _) apart
  have bound := le_rounded (representable_quantum 0)
    (by linarith : 2 ^ 0 * quantum ≤ worth (g.cell i).upper - worth (g.cell i).lower)
  rw [← width] at bound
  linarith [quantum_pos]

theorem climb_of_step (ascending : g.start.position < g.stop.position)
    (few : g.stop.position ≤ 2 ^ 50) (rises : g.start.value < g.stop.value)
    (finite : g.step.isFinite = true) (fine : 2 ^ 52 * quantum ≤ worth g.step) :
    Climb (worth g.start.value) (worth g.stop.value) (worth g.step)
      (g.stop.position - g.start.position) := by
  obtain ⟨start_finite, stop_finite, step⟩ := step_worth ascending (by omega) finite
  exact {
    start := worth_representable _
    stop := worth_representable _
    rises := (lt_iff_worth start_finite stop_finite).mp rises
    some := by omega
    few := by omega
    step := step
    fine := fine }

theorem framed_of_measured (measured : g.Measured i) (rising : 0 ≤ worth g.step)
    (wide : worth (g.cell i).width ≠ 0) :
    Framed (worth (g.cell i).center) (rounded (worth g.step / 2)) (worth (g.cell i).lower)
      (worth (g.cell i).upper) (worth (g.cell i).width) := by
  have lower := measured.lower
  have upper := measured.upper
  rw [abs_of_nonneg rising] at lower upper
  have reach : 0 ≤ rounded (worth g.step / 2) :=
    le_rounded representable_zero (div_nonneg rising zero_le_two)
  refine ⟨worth_representable _, rounded_representable _, reach.lt_of_ne ?_, lower, upper,
    measured.width⟩
  intro none
  rw [← none, sub_zero] at lower
  rw [← none, add_zero] at upper
  exact wide (by rw [measured.width, lower, upper, sub_self, rounded_zero])

end Segment
end CurveSketch
