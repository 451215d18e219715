import CurveSketch.Proofs.Slices

/- Rounded interpolation between two numbers, the second one larger: it never falls, and as long as
   its step is a normal number it does not pass the second number before it is due there. -/
namespace CurveSketch

def along (a t : ℚ) (r : ℕ) : ℚ := rounded (a + rounded (r * t))

/-- From `a` up to `b` in `n` steps of rounded size `t`. -/
structure Climb (a b t : ℚ) (n : ℕ) : Prop where
  start : Representable a
  stop : Representable b
  rises : a < b
  some : 0 < n
  few : n ≤ 2 ^ 50
  step : t = rounded (rounded (b - a) / n)
  fine : 2 ^ 52 * quantum ≤ t

theorem along_zero {a : ℚ} (rep : Representable a) (t : ℚ) : along a t 0 = a := by
  rw [along, Nat.cast_zero, zero_mul, rounded_zero, add_zero, rounded_of_representable rep]

theorem along_one (a : ℚ) {t : ℚ} (rep : Representable t) : along a t 1 = rounded (a + t) := by
  rw [along, Nat.cast_one, one_mul, rounded_of_representable rep]

theorem along_mono (a : ℚ) {t : ℚ} (nonneg : 0 ≤ t) {r r' : ℕ} (le : r ≤ r') :
    along a t r ≤ along a t r' := by
  have cast : (r : ℚ) ≤ r' := by exact_mod_cast le
  have product := rounded_mono (mul_le_mul_of_nonneg_right cast nonneg)
  exact rounded_mono (by linarith)

namespace Climb
variable {a b t : ℚ} {n : ℕ}

theorem step_positive (climb : Climb a b t n) : 0 < t := by
  linarith [climb.fine, quantum_pos]

theorem steps_near (climb : Climb a b t n) : |n * t - (b - a)| ≤ (b - a) * (5 / 2 ^ 53) := by
  have tiny := quantum_pos
  have cast : (0 : ℚ) < n := by exact_mod_cast climb.some
  have rises := climb.rises
  have difference := difference_error climb.stop climb.start
  rw [abs_of_pos (by linarith : 0 < b - a)] at difference
  have difference' := abs_le.mp difference
  have size : 0 < rounded (b - a) / n := div_pos (by linarith) cast
  have error := rounded_near (rounded (b - a) / n)
  rw [← climb.step, abs_of_pos size] at error
  have error' := abs_le.mp error
  -- the last digit of a normal number is far smaller than the number
  have share : quantum / 2 ≤ rounded (b - a) / n * (2 / 2 ^ 53) := by linarith [climb.fine]
  have whole : rounded (b - a) / n * n = rounded (b - a) := div_mul_cancel₀ _ cast.ne'
  generalize rounded (b - a) / n = x at *
  have low := mul_le_mul_of_nonneg_right
    (by linarith : -(x * (3 / 2 ^ 53)) ≤ t - x) cast.le
  have high := mul_le_mul_of_nonneg_right
    (by linarith : t - x ≤ x * (3 / 2 ^ 53)) cast.le
  rw [neg_mul, mul_right_comm, sub_mul, whole] at low
  rw [mul_right_comm, sub_mul, whole] at high
  rw [abs_le]
  constructor <;> linarith

theorem product_near (climb : Climb a b t n) {r : ℕ} (some : 0 < r) :
    |rounded (r * t) - r * t| ≤ r * t / 2 ^ 53 := by
  have tiny := quantum_pos
  have cast : (1 : ℚ) ≤ r := by exact_mod_cast some
  have bulk : t ≤ r * t := le_mul_of_one_le_left climb.step_positive.le cast
  have positive : 0 < r * t := climb.step_positive.trans_le bulk
  have error := normal_error (x := r * t) (by
    rw [abs_of_pos positive]
    linarith [climb.fine])
  rwa [abs_of_pos positive] at error

theorem along_le (climb : Climb a b t n) {r : ℕ} (before : r < n) : along a t r ≤ b := by
  apply rounded_le climb.stop
  have rises := climb.rises
  rcases Nat.eq_zero_or_pos r with zero | some
  · rw [zero, Nat.cast_zero, zero_mul, rounded_zero]
    linarith
  · have near := abs_le.mp (climb.product_near some)
    have steps := abs_le.mp climb.steps_near
    have cast : (r : ℚ) + 1 ≤ n := by exact_mod_cast before
    have few : (n : ℚ) ≤ 2 ^ 50 := by exact_mod_cast climb.few
    have one_less := mul_le_mul_of_nonneg_right cast climb.step_positive.le
    have share := mul_le_mul_of_nonneg_right few climb.step_positive.le
    linarith

end Climb
end CurveSketch
