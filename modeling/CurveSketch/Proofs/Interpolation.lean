import CurveSketch.Proofs.Segments
import Mathlib.Algebra.Order.Field.Basic
import Mathlib.Algebra.Order.Ring.Rat
import Mathlib.Order.Monotone.Basic
import Mathlib.Tactic.FieldSimp
import Mathlib.Tactic.Linarith
import Mathlib.Tactic.Ring

/- Scales in exact rationals: centers follow the ticks, one step of the segment at a time. -/
namespace CurveSketch

theorem rat_magnitude (a : ℚ) : Scalar.magnitude a = |a| := by
  change Rat.abs a = |a|
  unfold Rat.abs
  split
  · rename_i nonneg
    exact (abs_of_nonneg nonneg).symm
  · rename_i negative
    exact (abs_of_neg (not_le.mp negative)).symm

theorem rat_order (a b : ℚ) : (zero : ℚ) < a - b ↔ b < a := by
  change 0 < a - b ↔ b < a
  exact sub_pos

theorem half_rat (a : ℚ) : half a = a / 2 := rfl

theorem Cell.around_width (center step : ℚ) : (Cell.around center step).width = |step| := by
  rw [← rat_magnitude, width, around]
  change center + half _ - (center - half _) = _
  rw [half_rat]
  ring

def Axis.sign : Axis → ℚ
  | .x => 1
  | .y => -1

theorem Axis.inOrder_iff (axis : Axis) (a b : ℚ) :
    axis.inOrder a b = true ↔ 0 < axis.sign * (b - a) := by
  cases axis with
  | x =>
    rw [inOrder, decide_eq_true_eq, sign, one_mul]
    exact sub_pos.symm
  | y =>
    rw [inOrder, decide_eq_true_eq, rat_order, sign, neg_one_mul, neg_sub]
    exact sub_pos.symm

namespace Segment

theorem step_rat (g : Segment ℚ) :
    g.step = (g.stop.value - g.start.value) / ((g.stop.position - g.start.position : ℕ) : ℚ) :=
  rfl

theorem value_rat (g : Segment ℚ) (i : ℕ) :
    g.value i = g.start.value + ((i : ℚ) - (g.start.position : ℚ)) * g.step := rfl

theorem lower_rat (g : Segment ℚ) (i : ℕ) : (g.cell i).lower = g.value i - |g.step| / 2 := by
  rw [← rat_magnitude]
  rfl

theorem upper_rat (g : Segment ℚ) (i : ℕ) : (g.cell i).upper = g.value i + |g.step| / 2 := by
  rw [← rat_magnitude]
  rfl

theorem value_start (g : Segment ℚ) : g.value g.start.position = g.start.value := by
  rw [value_rat]
  ring

theorem value_stop {g : Segment ℚ} (ascending : g.start.position < g.stop.position) :
    g.value g.stop.position = g.stop.value := by
  have length : ((g.stop.position - g.start.position : ℕ) : ℚ) =
      (g.stop.position : ℚ) - (g.start.position : ℚ) := Nat.cast_sub ascending.le
  have apart : (g.stop.position : ℚ) - (g.start.position : ℚ) ≠ 0 := by
    have cast : (g.start.position : ℚ) < (g.stop.position : ℚ) := by exact_mod_cast ascending
    linarith
  rw [value_rat, step_rat, length]
  field_simp
  ring

theorem value_next (g : Segment ℚ) (i : ℕ) : g.value (i + 1) = g.value i + g.step := by
  rw [value_rat, value_rat]
  push_cast
  ring

theorem step_signed {axis : Axis} {g : Segment ℚ} (apart : g.start.position < g.stop.position)
    (ordered : axis.inOrder g.start.value g.stop.value = true) : 0 < axis.sign * g.step := by
  have way := (axis.inOrder_iff _ _).mp ordered
  have length : (0 : ℚ) < ((g.stop.position - g.start.position : ℕ) : ℚ) := by
    exact_mod_cast Nat.sub_pos_of_lt apart
  rw [step_rat, ← mul_div_assoc]
  exact div_pos way length

end Segment

namespace Scale

theorem cell_width (s : Scale ℚ) (i : ℕ) : (s.cell i).width = |(s.segment i).step| :=
  Cell.around_width ((s.segment i).value i) (s.segment i).step

variable {s : Scale ℚ}

/-- The next center lies on the line of this segment, whichever segment it is read from. -/
theorem center_next (ascending : s.toList.IsChain fun t u => t.position < u.position) (i : ℕ) :
    (s.cell (i + 1)).center = (s.cell i).center + (s.segment i).step := by
  change (s.segment (i + 1)).value (i + 1) = (s.segment i).value i + (s.segment i).step
  rw [← Segment.value_next]
  rcases segment_next ascending i with same | ⟨here, next⟩
  · rw [same]
  · have apart := segment_of_chain ascending i
    calc (s.segment (i + 1)).value (i + 1)
        = (s.segment (i + 1)).value (s.segment (i + 1)).start.position := by rw [next, ← here]
      _ = (s.segment i).stop.value := by rw [Segment.value_start, next]
      _ = (s.segment i).value (i + 1) := by rw [here, Segment.value_stop apart]

theorem center_of_tick (ascending : s.toList.IsChain fun t u => t.position < u.position)
    {t : Tick ℚ} (member : t ∈ s.toList) : (s.cell t.position).center = t.value := by
  change (s.segment t.position).value t.position = t.value
  rcases last_or_next member with rfl | ⟨u, neighbours⟩
  · have stop := segment_last ascending
    have reached := Segment.value_stop (segment_of_chain ascending s.last.position)
    rwa [stop] at reached
  · have apart := ascending.infix neighbours
    simp only [List.isChain_cons_cons, List.isChain_singleton, and_true] at apart
    rw [segment_between ascending neighbours (le_refl _) apart]
    exact Segment.value_start ⟨t, u⟩

theorem center_inOrder {axis : Axis}
    (ascending : s.toList.IsChain fun t u => t.position < u.position)
    (ordered : s.toList.IsChain fun t u => axis.inOrder t.value u.value = true) {i j : ℕ}
    (before : i < j) : axis.inOrder (s.cell i).center (s.cell j).center = true := by
  have advances : StrictMono fun i => axis.sign * (s.cell i).center := by
    refine strictMono_nat_of_lt_succ fun i => ?_
    have apart := segment_of_chain ascending i
    have step := Segment.step_signed apart (segment_of_chain ordered i)
    rw [center_next ascending i, mul_add]
    exact lt_add_of_pos_right _ step
  rw [axis.inOrder_iff, mul_sub]
  exact sub_pos.mpr (advances before)

theorem step_negative (ascending : s.toList.IsChain fun t u => t.position < u.position)
    (descending : s.toList.IsChain fun t u => u.value < t.value) (i : ℕ) :
    (s.segment i).step < 0 := by
  have falls : Axis.y.inOrder (s.segment i).start.value (s.segment i).stop.value = true := by
    rw [Axis.inOrder, decide_eq_true_eq, rat_order]
    exact segment_of_chain descending i
  have signed := Segment.step_signed (segment_of_chain ascending i) falls
  rw [Axis.sign] at signed
  linarith

end Scale

theorem Sketch.down_descends {s : Sketch ℚ} {down : Scale ℚ} (isDown : s.down = .ok down) :
    down.toList.IsChain fun t u => u.value < t.value := by
  simpa only [rat_order] using (down_laid isDown).ordered

end CurveSketch
