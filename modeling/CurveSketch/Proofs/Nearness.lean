import CurveSketch.Proofs.Rounding

/- How near a rounded number comes, and how far apart representable numbers lie. -/
namespace CurveSketch

variable {x y z : ℚ}

theorem nearer_left (less : x < y) (near : |x - z| ≤ |y - z|) : z ≤ (x + y) / 2 := by
  by_contra beyond
  rw [not_le] at beyond
  rcases abs_cases (y - z) with ⟨size, _⟩ | ⟨size, _⟩
  · rw [size, abs_of_neg (by linarith)] at near
    linarith
  · rw [size, abs_of_neg (by linarith)] at near
    linarith

theorem nearer_right (less : x < y) (near : |y - z| ≤ |x - z|) : (x + y) / 2 ≤ z := by
  have mirrored : |-y - -z| ≤ |-x - -z| := by
    rwa [← neg_sub', ← neg_sub', abs_neg, abs_neg]
  have bound := nearer_left (neg_lt_neg less) mirrored
  linarith

theorem below_of_rounded_lt (rep : Representable x) (below : rounded y < x) :
    y ≤ (rounded y + x) / 2 := nearer_left below (rounded_nearest y rep)

theorem above_of_lt_rounded (rep : Representable x) (above : x < rounded y) :
    (x + rounded y) / 2 ≤ y := nearer_right above (rounded_nearest y rep)

theorem rounded_le (rep : Representable y) (le : x ≤ y) : rounded x ≤ y := by
  have mono := rounded_mono le
  rwa [rounded_of_representable rep] at mono

theorem le_rounded (rep : Representable x) (le : x ≤ y) : x ≤ rounded y := by
  have mono := rounded_mono le
  rwa [rounded_of_representable rep] at mono

theorem grid_somewhere (x : ℚ) :
    ∃ e : ℤ, |x| < 2 ^ 53 * 2 ^ e ∧ -1074 ≤ e ∧ (2 ^ 52 * 2 ^ e ≤ |x| ∨ e = -1074) := by
  by_cases zero : x = 0
  · refine ⟨-1074, ?_, le_refl _, Or.inr rfl⟩
    rw [zero, abs_zero]
    exact mul_pos (by norm_num) (power_pos _)
  · exact ⟨lastDigit x, lastDigit_upper x, lastDigit_min x, lastDigit_lower zero⟩

theorem representable_apart_of_le (left : Representable x) (right : Representable y)
    (apart : x ≠ y) (smaller : |x| ≤ |y|) : |y| ≤ 2 ^ 53 * |x - y| := by
  obtain ⟨e, small, _, size⟩ := grid_somewhere x
  have positive := power_pos e
  have sizes : (2 ^ 52 * 2 ^ e ≤ |x| ∨ e ≤ -1074) ∧ (2 ^ 52 * 2 ^ e ≤ |y| ∨ e ≤ -1074) := by
    rcases size with large | minimal
    · exact ⟨Or.inl large, Or.inl (large.trans smaller)⟩
    · exact ⟨Or.inr minimal.le, Or.inr minimal.le⟩
  obtain ⟨k, rfl⟩ := representable_grid left sizes.1
  obtain ⟨j, rfl⟩ := representable_grid right sizes.2
  have differ : k ≠ j := fun same => apart (by rw [same])
  have digits : |(k : ℚ)| ≤ 2 ^ 53 - 1 := by
    rw [abs_mul, abs_of_pos positive] at small
    have digits : |(k : ℚ)| < 2 ^ 53 := lt_of_mul_lt_mul_right small positive.le
    have digits' : |k| < 2 ^ 53 := by exact_mod_cast digits
    have digits'' : |k| ≤ 2 ^ 53 - 1 := by omega
    exact_mod_cast digits''
  have steps : (1 : ℚ) ≤ |(k : ℚ) - j| := by
    exact_mod_cast Int.one_le_abs (sub_ne_zero.mpr differ)
  have difference : |(k : ℚ) * 2 ^ e - j * 2 ^ e| = |(k : ℚ) - j| * 2 ^ e := by
    rw [← sub_mul, abs_mul, abs_of_pos positive]
  have least : (2 : ℚ) ^ e ≤ |(k : ℚ) - j| * 2 ^ e := by
    exact le_mul_of_one_le_left positive.le steps
  have top : |(k : ℚ) * 2 ^ e| ≤ (2 ^ 53 - 1) * 2 ^ e := by
    rw [abs_mul, abs_of_pos positive]
    exact mul_le_mul_of_nonneg_right digits positive.le
  have triangle := abs_sub_abs_le_abs_sub ((j : ℚ) * 2 ^ e) (k * 2 ^ e)
  rw [abs_sub_comm] at triangle
  rw [difference] at triangle ⊢
  linarith

theorem representable_apart (left : Representable x) (right : Representable y) (apart : x ≠ y) :
    |x| ≤ 2 ^ 53 * |x - y| := by
  rcases le_total |x| |y| with smaller | larger
  · exact smaller.trans (representable_apart_of_le left right apart smaller)
  · have bound := representable_apart_of_le right left apart.symm larger
    rwa [abs_sub_comm] at bound

theorem sum_error (left : Representable x) (right : Representable y) :
    |rounded (x + y) - (x + y)| ≤ |x + y| / 2 ^ 53 := by
  obtain ⟨e, ends⟩ := ends_somewhere (x + y)
  rcases ends.lower with large | minimal
  · have error := rounded_error ends.least ends.upper
    have share : 2 ^ e / 2 ≤ |x + y| / 2 ^ 53 := by
      rw [le_div_iff₀ (by norm_num)]
      linarith
    linarith
  · obtain ⟨k, rfl⟩ := representable_grid left (Or.inr minimal.le)
    obtain ⟨j, rfl⟩ := representable_grid right (Or.inr minimal.le)
    have whole : (k : ℚ) * 2 ^ e + j * 2 ^ e = ((k + j : ℤ) : ℚ) * 2 ^ e := by
      push_cast
      ring
    have upper := ends.upper
    rw [whole] at upper ⊢
    rw [rounded_of_representable (representable_of_grid ends.least upper), sub_self, abs_zero]
    positivity

theorem difference_error (left : Representable x) (right : Representable y) :
    |rounded (x - y) - (x - y)| ≤ |x - y| / 2 ^ 53 := by
  have error := sum_error left (representable_neg right)
  rwa [← sub_eq_add_neg] at error

/-- The distance of the tiniest numbers. -/
def quantum : ℚ := 2 ^ (-1074 : ℤ)

theorem quantum_pos : 0 < quantum := power_pos (-1074)

theorem power_quantum (k : ℕ) : (2 : ℚ) ^ ((k : ℤ) + -1074) = 2 ^ k * quantum := by
  rw [power_add, zpow_natCast, quantum]

theorem representable_quantum (k : ℕ) : Representable (2 ^ k * quantum) := by
  rw [← power_quantum]
  exact ⟨1, k + -1074, by norm_num, by omega, by rw [Int.cast_one, one_mul]⟩

/-- In the normal range the error is a share of the number. -/
theorem normal_error (normal : 2 ^ 52 * quantum ≤ |x|) : |rounded x - x| ≤ |x| / 2 ^ 53 := by
  obtain ⟨e, ends⟩ := ends_somewhere x
  have error := rounded_error ends.least ends.upper
  have full : 2 ^ 52 * 2 ^ e ≤ |x| := by
    rcases ends.lower with large | minimal
    · exact large
    · rwa [minimal]
  have share : 2 ^ e / 2 ≤ |x| / 2 ^ 53 := by
    rw [le_div_iff₀ (by norm_num)]
    linarith
  exact error.trans share

theorem rounded_near (x : ℚ) : |rounded x - x| ≤ |x| / 2 ^ 53 + quantum / 2 := by
  obtain ⟨e, ends⟩ := ends_somewhere x
  have error := rounded_error ends.least ends.upper
  rcases ends.lower with large | minimal
  · have share : 2 ^ e / 2 ≤ |x| / 2 ^ 53 := by
      rw [le_div_iff₀ (by norm_num)]
      linarith
    linarith [quantum_pos]
  · rw [minimal] at error
    change _ ≤ quantum / 2 at error
    linarith [div_nonneg (abs_nonneg x) (by norm_num : (0 : ℚ) ≤ 2 ^ 53)]

theorem representable_double (rep : Representable x) : Representable (x * 2) := by
  obtain ⟨m, e, digits, least, rfl⟩ := rep
  refine ⟨m, e + 1, digits, by omega, ?_⟩
  rw [power_add, zpow_one]
  ring

theorem representable_half (rep : Representable x) (large : 2 ^ 53 * quantum ≤ |x|) :
    Representable (x / 2) := by
  obtain ⟨e, small, least, size⟩ := grid_somewhere x
  have positive := power_pos e
  have room : -1074 < e := by
    by_contra tiny
    have coarse : (2 : ℚ) ^ e ≤ quantum := power_le (by omega)
    linarith
  obtain ⟨m, rfl⟩ := representable_grid rep (Or.inl (size.resolve_right room.ne'))
  rw [abs_mul, abs_of_pos positive] at small
  have digits : |(m : ℚ)| < 2 ^ 53 := lt_of_mul_lt_mul_right small positive.le
  refine ⟨m, e - 1, by exact_mod_cast digits.le, by omega, ?_⟩
  rw [zpow_sub_one₀ two_ne_zero]
  ring

/-- The next representable number below `c` is `a` away. Of the two ties at this distance not
    both fall to the same side of `c` in a way that leaves `c` above the lower one only. -/
structure Predecessor (c a : ℚ) : Prop where
  positive : 0 < a
  representable : Representable (c - a)
  last : ∀ {f : ℚ}, Representable f → f < c → f ≤ c - a
  tie : rounded (c - a / 2) < c → c < rounded (c + a / 2)

theorem rounded_tie {k e : ℤ} (ends : Ends e ((k : ℚ) * 2 ^ e + 2 ^ e / 2)) :
    rounded ((k : ℚ) * 2 ^ e + 2 ^ e / 2) = ((k + k % 2 : ℤ) : ℚ) * 2 ^ e := by
  have positive := power_pos e
  have middle : ((k : ℚ) * 2 ^ e + 2 ^ e / 2) / 2 ^ e = k + 1 / 2 := by
    rw [div_eq_iff positive.ne']
    ring
  rw [rounded_eq ends, middle, nearestInt_half]

theorem grid_step {k j e : ℤ} (less : (k : ℚ) * 2 ^ e < j * 2 ^ e) :
    (k : ℚ) * 2 ^ e ≤ j * 2 ^ e - 2 ^ e := by
  have positive := power_pos e
  have less' : k < j := by exact_mod_cast lt_of_mul_lt_mul_right less positive.le
  have step : (k : ℚ) ≤ j - 1 := by exact_mod_cast (by omega : k ≤ j - 1)
  have scaled := mul_le_mul_of_nonneg_right step positive.le
  linarith

/-- At a power of two the numbers below lie twice as close as those above. -/
theorem predecessor_of_power {e : ℤ} (least : -1074 ≤ e) :
    Predecessor (((2 ^ 53 : ℤ) : ℚ) * 2 ^ e) (2 ^ e) := by
  have positive := power_pos e
  have below : ((2 ^ 53 : ℤ) : ℚ) * 2 ^ e - 2 ^ e = ((2 ^ 53 - 1 : ℤ) : ℚ) * 2 ^ e := by
    push_cast
    ring
  refine ⟨positive, ?_, ?_, ?_⟩
  · rw [below]
    apply representable_of_grid least
    rw [abs_of_nonneg (mul_nonneg (by norm_num) positive.le)]
    exact mul_le_mul_of_nonneg_right (by norm_num) positive.le
  · intro f rep less
    by_cases large : 2 ^ 52 * 2 ^ e ≤ |f|
    · obtain ⟨k, rfl⟩ := representable_grid rep (Or.inl large)
      exact grid_step less
    · have small := (abs_lt.mp (not_le.mp large)).2
      norm_num at small ⊢
      linarith
  · intro falls
    have middle : ((2 ^ 53 : ℤ) : ℚ) * 2 ^ e - 2 ^ e / 2 =
        ((2 ^ 53 - 1 : ℤ) : ℚ) * 2 ^ e + 2 ^ e / 2 := by
      push_cast
      ring
    have ends : Ends e (((2 ^ 53 - 1 : ℤ) : ℚ) * 2 ^ e + 2 ^ e / 2) := by
      have size : (0 : ℚ) ≤ ((2 ^ 53 - 1 : ℤ) : ℚ) * 2 ^ e + 2 ^ e / 2 := by
        have whole : (0 : ℚ) ≤ ((2 ^ 53 - 1 : ℤ) : ℚ) := by norm_num
        have product := mul_nonneg whole positive.le
        linarith
      refine ⟨least, ?_, Or.inl ?_⟩
      · rw [abs_of_nonneg size]
        norm_num
        linarith
      · rw [abs_of_nonneg size]
        norm_num
        linarith
    rw [middle, rounded_tie ends] at falls
    norm_num at falls

theorem predecessor_of_grid {m e : ℤ} (least : -1074 ≤ e) (digits : |m| < 2 ^ 53)
    (full : 2 ^ 52 < m ∨ m ≤ -2 ^ 52) : Predecessor ((m : ℚ) * 2 ^ e) (2 ^ e) := by
  have positive := power_pos e
  have bounds := abs_lt.mp digits
  have below : (m : ℚ) * 2 ^ e - 2 ^ e = ((m - 1 : ℤ) : ℚ) * 2 ^ e := by
    push_cast
    ring
  have scaled {k : ℤ} (digits : |k| ≤ 2 ^ 53) : |(k : ℚ) * 2 ^ e| ≤ 2 ^ 53 * 2 ^ e := by
    have cast : |(k : ℚ)| ≤ 2 ^ 53 := by exact_mod_cast digits
    rw [abs_mul, abs_of_pos positive]
    exact mul_le_mul_of_nonneg_right cast positive.le
  have tied {k : ℤ} (low : -2 ^ 53 ≤ k) (high : k < 2 ^ 53) (full : 2 ^ 52 ≤ k ∨ k < -2 ^ 52) :
      Ends e ((k : ℚ) * 2 ^ e + 2 ^ e / 2) := by
    have low' : -(2 ^ 53 : ℚ) ≤ k := by exact_mod_cast low
    have high' : (k : ℚ) ≤ 2 ^ 53 - 1 := by exact_mod_cast (by omega : k ≤ 2 ^ 53 - 1)
    have lowScaled := mul_le_mul_of_nonneg_right low' positive.le
    have highScaled := mul_le_mul_of_nonneg_right high' positive.le
    refine ⟨least, abs_le.mpr ⟨by linarith, by linarith⟩, Or.inl ?_⟩
    rcases full with above | under
    · have cast : (2 ^ 52 : ℚ) ≤ k := by exact_mod_cast above
      have product := mul_le_mul_of_nonneg_right cast positive.le
      exact le_abs.mpr (Or.inl (by linarith))
    · have cast : (k : ℚ) ≤ -2 ^ 52 - 1 := by exact_mod_cast (by omega : k ≤ -2 ^ 52 - 1)
      have product := mul_le_mul_of_nonneg_right cast positive.le
      exact le_abs.mpr (Or.inr (by linarith))
  refine ⟨positive, ?_, ?_, ?_⟩
  · rw [below]
    exact representable_of_grid least (scaled (abs_le.mpr ⟨by omega, by omega⟩))
  · intro f rep less
    by_cases large : 2 ^ 52 * 2 ^ e ≤ |f|
    · obtain ⟨k, rfl⟩ := representable_grid rep (Or.inl large)
      exact grid_step less
    · have small := abs_lt.mp (not_le.mp large)
      rcases full with above | under
      · have cast : (2 ^ 52 + 1 : ℚ) ≤ m := by exact_mod_cast (by omega : 2 ^ 52 + 1 ≤ m)
        have product := mul_le_mul_of_nonneg_right cast positive.le
        linarith [small.2]
      · have cast : (m : ℚ) ≤ -2 ^ 52 := by exact_mod_cast under
        have product := mul_le_mul_of_nonneg_right cast positive.le
        linarith [small.1]
  · intro falls
    have middle : (m : ℚ) * 2 ^ e - 2 ^ e / 2 = ((m - 1 : ℤ) : ℚ) * 2 ^ e + 2 ^ e / 2 := by
      push_cast
      ring
    rw [middle, rounded_tie (tied (by omega) (by omega) (by omega))] at falls
    have odd : m - 1 + (m - 1) % 2 < m := by
      exact_mod_cast lt_of_mul_lt_mul_right falls positive.le
    rw [rounded_tie (tied (by omega) (by omega) (by omega))]
    have next : (m : ℚ) < ((m + m % 2 : ℤ) : ℚ) := by
      exact_mod_cast (by omega : m < m + m % 2)
    exact mul_lt_mul_of_pos_right next positive

theorem predecessor_of_full {m e : ℤ} (room : -1074 < e) (digits : |m| < 2 ^ 53)
    (full : 2 ^ 52 ≤ |m|) : ∃ a, Predecessor ((m : ℚ) * 2 ^ e) a ∧ 2 ^ e ≤ 2 * a := by
  have positive := power_pos e
  by_cases power : m = 2 ^ 52
  · have half := power_halved e
    have center : (m : ℚ) * 2 ^ e = ((2 ^ 53 : ℤ) : ℚ) * 2 ^ (e - 1) := by
      rw [power, half]
      push_cast
      ring
    rw [center]
    exact ⟨2 ^ (e - 1), predecessor_of_power (by omega), by linarith⟩
  · have apart : 2 ^ 52 < m ∨ m ≤ -2 ^ 52 := by
      rcases abs_cases m with ⟨size, _⟩ | ⟨size, _⟩ <;> omega
    exact ⟨2 ^ e, predecessor_of_grid (by omega) digits apart, by linarith⟩

theorem representable_quanta (rep : Representable x) : ∃ k : ℤ, x = k * quantum :=
  representable_grid rep (Or.inr le_rfl)

theorem quantum_step (left : Representable x) (right : Representable y) (less : x < y) :
    x + quantum ≤ y := by
  obtain ⟨k, rfl⟩ := representable_quanta left
  obtain ⟨j, rfl⟩ := representable_quanta right
  have step := grid_step less
  change (k : ℚ) * 2 ^ (-1074 : ℤ) + 2 ^ (-1074 : ℤ) ≤ j * 2 ^ (-1074 : ℤ)
  linarith

theorem quantum_step_sum (first : Representable x) (second : Representable y)
    (other : Representable z) (less : x + y < z) : x + y + quantum ≤ z := by
  obtain ⟨k, rfl⟩ := representable_quanta first
  obtain ⟨l, rfl⟩ := representable_quanta second
  obtain ⟨j, rfl⟩ := representable_quanta other
  rw [← add_mul, ← Int.cast_add] at less ⊢
  have step := grid_step less
  change ((k + l : ℤ) : ℚ) * quantum ≤ j * quantum - quantum at step
  linarith

theorem quanta_of_not_representable (left : Representable x) (right : Representable y)
    (rounds : ¬ Representable (y - x)) : 2 ^ 53 * quantum < |y - x| := by
  by_contra small
  obtain ⟨k, rfl⟩ := representable_quanta left
  obtain ⟨j, rfl⟩ := representable_quanta right
  rw [← sub_mul, ← Int.cast_sub] at rounds small
  exact rounds (representable_of_grid (by norm_num) (not_lt.mp small))

theorem representable_of_quanta {k : ℤ} (small : |(k : ℚ) * quantum| ≤ 2 ^ 53 * quantum) :
    Representable (k * quantum) := representable_of_grid (by norm_num) small

theorem half_error (rep : Representable x) : |rounded (x / 2) - x / 2| ≤ quantum / 2 := by
  by_cases large : 2 ^ 53 * quantum ≤ |x|
  · rw [rounded_of_representable (representable_half rep large), sub_self, abs_zero]
    linarith [quantum_pos]
  · refine rounded_error (e := -1074) le_rfl ?_
    rw [abs_div, abs_two]
    change _ ≤ 2 ^ 53 * quantum
    linarith [abs_nonneg x]

theorem rounded_half_le (rep : Representable x) (whole : Representable y) (whole' : Representable z)
    (le : x / 2 ≤ y - z) : rounded (x / 2) ≤ y - z := by
  by_contra beyond
  rw [not_le] at beyond
  obtain ⟨j, rfl⟩ := representable_quanta whole
  obtain ⟨k, rfl⟩ := representable_quanta whole'
  have near := (abs_le.mp (half_error rep)).2
  obtain ⟨m, half⟩ := representable_quanta (rounded_representable (x / 2))
  obtain ⟨n, double⟩ := representable_quanta rep
  rw [half] at beyond near
  have less : ((j - k : ℤ) : ℚ) * 2 ^ (-1074 : ℤ) < m * 2 ^ (-1074 : ℤ) := by
    change _ * quantum < _ * quantum
    push_cast
    linarith
  have step := grid_step less
  change ((j - k : ℤ) : ℚ) * quantum ≤ m * quantum - quantum at step
  push_cast at step
  linarith [quantum_pos]

theorem grid_of_representable (rep : Representable x) :
    ∃ m e : ℤ, x = m * 2 ^ e ∧ |m| < 2 ^ 53 ∧ -1074 ≤ e ∧ (2 ^ 52 ≤ |m| ∨ e = -1074) := by
  obtain ⟨e, small, least, size⟩ := grid_somewhere x
  have positive := power_pos e
  have place : 2 ^ 52 * 2 ^ e ≤ |x| ∨ e ≤ -1074 := size.imp_right fun minimal => minimal.le
  obtain ⟨m, rfl⟩ := representable_grid rep place
  rw [abs_mul, abs_of_pos positive] at small size
  have digits : |(m : ℚ)| < 2 ^ 53 := lt_of_mul_lt_mul_right small positive.le
  refine ⟨m, e, rfl, by exact_mod_cast digits, least, size.imp_left fun large => ?_⟩
  have full : (2 : ℚ) ^ 52 ≤ |(m : ℚ)| := le_of_mul_le_mul_right large positive
  exact_mod_cast full

theorem representable_next {m e : ℤ} (digits : |m| < 2 ^ 53) (least : -1074 ≤ e) :
    Representable (m * 2 ^ e + 2 ^ e) := by
  have bounds := abs_lt.mp digits
  refine ⟨m + 1, e, abs_le.mpr ⟨by omega, by omega⟩, least, ?_⟩
  push_cast
  ring

theorem half_place_apart {m e : ℤ} (rep : Representable ((m : ℚ) * 2 ^ e))
    (full : 2 ^ 52 ≤ |m| ∨ e = -1074) (other : Representable y) (apart : (m : ℚ) * 2 ^ e ≠ y) :
    2 ^ e ≤ 2 * |(m : ℚ) * 2 ^ e - y| := by
  have positive := power_pos e
  rcases full with large | rfl
  · have room := representable_apart rep other apart
    have large' : (2 : ℚ) ^ 52 ≤ |(m : ℚ)| := by exact_mod_cast large
    rw [abs_mul, abs_of_pos positive] at room
    have size := mul_le_mul_of_nonneg_right large' positive.le
    linarith
  · change quantum ≤ _
    rcases lt_or_gt_of_ne apart with less | more
    · have step := quantum_step rep other less
      rw [abs_sub_comm, abs_of_pos (sub_pos.mpr less)]
      linarith [quantum_pos]
    · have step := quantum_step other rep more
      rw [abs_of_pos (sub_pos.mpr more)]
      linarith [quantum_pos]

end CurveSketch
