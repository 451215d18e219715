import CurveSketch.Proofs.Nearness

/- A cell whose ends are rounded. However few digits the cell is wide, its first middle does not
   pass the center and its last middle reaches it. -/
namespace CurveSketch

/-- A cell of half width `g` around `c`, as rounding leaves it. -/
structure Framed (c g low high width : ℚ) : Prop where
  center : Representable c
  reach : Representable g
  positive : 0 < g
  low_eq : low = rounded (c - g)
  high_eq : high = rounded (c + g)
  width_eq : width = rounded (high - low)

namespace Framed
variable {c g low high width : ℚ}

theorem low_representable (cell : Framed c g low high width) : Representable low := by
  rw [cell.low_eq]
  exact rounded_representable _

theorem high_representable (cell : Framed c g low high width) : Representable high := by
  rw [cell.high_eq]
  exact rounded_representable _

theorem low_le (cell : Framed c g low high width) : low ≤ c := by
  rw [cell.low_eq]
  exact rounded_le cell.center (by linarith [cell.positive])

theorem le_high (cell : Framed c g low high width) : c ≤ high := by
  rw [cell.high_eq]
  exact le_rounded cell.center (by linarith [cell.positive])

theorem low_near (cell : Framed c g low high width) :
    |low - (c - g)| ≤ (|c| + g) / 2 ^ 53 := by
  rw [cell.low_eq]
  refine (difference_error cell.center cell.reach).trans ?_
  have size := abs_sub c g
  rw [abs_of_pos cell.positive] at size
  linarith

theorem high_near (cell : Framed c g low high width) :
    |high - (c + g)| ≤ (|c| + g) / 2 ^ 53 := by
  rw [cell.high_eq]
  refine (sum_error cell.center cell.reach).trans ?_
  have size := abs_add_le c g
  rw [abs_of_pos cell.positive] at size
  linarith

theorem low_far (cell : Framed c g low high width) : c - low ≤ 2 * g := by
  have near := rounded_nearest (c - g) cell.center
  rw [← cell.low_eq, sub_sub_cancel, abs_of_pos cell.positive] at near
  linarith [(abs_le.mp near).1]

theorem high_far (cell : Framed c g low high width) : high - c ≤ 2 * g := by
  have near := rounded_nearest (c + g) cell.center
  rw [← cell.high_eq, abs_sub_comm c, add_sub_cancel_left, abs_of_pos cell.positive] at near
  linarith [(abs_le.mp near).2]

theorem width_near (cell : Framed c g low high width) :
    |width - (high - low)| ≤ (high - low) / 2 ^ 53 := by
  rw [cell.width_eq]
  refine (difference_error cell.high_representable cell.low_representable).trans ?_
  rw [abs_of_nonneg (by linarith [cell.low_le, cell.le_high])]

theorem first_le (cell : Framed c g low high width) {h : ℚ} (quarter : 4 * h ≤ width) :
    rounded (low + h) ≤ c := by
  by_contra passed
  rw [not_le] at passed
  have middle := above_of_lt_rounded cell.center passed
  have room := representable_apart cell.center (rounded_representable (low + h)) passed.ne
  have nearest := rounded_nearest (c + g) (rounded_representable (low + h))
  rw [← cell.high_eq] at nearest
  generalize rounded (low + h) = first at *
  rw [abs_sub_comm, abs_of_pos (by linarith : 0 < first - c)] at room
  have below := cell.low_le
  have low_near := abs_le.mp cell.low_near
  have high_near := abs_le.mp cell.high_near
  have width_near := abs_le.mp cell.width_near
  have positive := cell.positive
  rcases abs_cases (first - (c + g)) with ⟨size, _⟩ | ⟨size, _⟩
  · rw [size] at nearest
    linarith [(abs_le.mp nearest).2]
  · rw [size] at nearest
    linarith [(abs_le.mp nearest).2]

theorem grid_of_tiny (cell : Framed c g low high width) (tiny : 2 ^ 53 * g < 5 * |c|)
    (normal : 5 * quantum ≤ g) :
    ∃ m e : ℤ, c = m * 2 ^ e ∧ -1073 ≤ e ∧ 2 ^ 52 ≤ |m| ∧ |m| < 2 ^ 53 ∧ g < 5 * 2 ^ e := by
  obtain ⟨e, small, least, size⟩ := grid_somewhere c
  have positive := power_pos e
  have narrow : g < 5 * 2 ^ e := by linarith
  have room : -1074 < e := by
    by_contra minimal
    have coarse : (2 : ℚ) ^ e ≤ quantum := power_le (by omega)
    linarith
  have full := size.resolve_right room.ne'
  obtain ⟨m, rfl⟩ := representable_grid cell.center (Or.inl full)
  rw [abs_mul, abs_of_pos positive] at small full
  have digits : |(m : ℚ)| < 2 ^ 53 := lt_of_mul_lt_mul_right small positive.le
  have digits' : (2 : ℚ) ^ 52 ≤ |(m : ℚ)| := le_of_mul_le_mul_right full positive
  exact ⟨m, e, rfl, by omega, by exact_mod_cast digits', by exact_mod_cast digits, narrow⟩

theorem ends_far (cell : Framed c g low high width) {e : ℤ} (narrow : g < 5 * 2 ^ e) {s : ℚ}
    (far : s + 10 * 2 ^ e ≤ |c|) : s ≤ |low| ∧ s ≤ |high| := by
  have left := abs_sub_abs_le_abs_sub c low
  have right := abs_sub_abs_le_abs_sub c high
  rw [abs_of_nonneg (sub_nonneg.mpr cell.low_le)] at left
  rw [abs_sub_comm c high, abs_of_nonneg (sub_nonneg.mpr cell.le_high)] at right
  constructor
  · linarith [cell.low_far]
  · linarith [cell.high_far]

theorem width_exact (cell : Framed c g low high width) {e : ℤ} (least : -1073 ≤ e)
    (narrow : g < 5 * 2 ^ e) (full : 2 ^ 52 * 2 ^ e ≤ |c|) : width = high - low := by
  have positive := power_pos (e - 1)
  have half := power_halved e
  obtain ⟨lowFar, highFar⟩ := cell.ends_far (s := 2 ^ 52 * 2 ^ (e - 1)) narrow (by linarith)
  obtain ⟨j, low_grid⟩ := representable_grid cell.low_representable (Or.inl lowFar)
  obtain ⟨k, high_grid⟩ := representable_grid cell.high_representable (Or.inl highFar)
  have whole : high - low = ((k - j : ℤ) : ℚ) * 2 ^ (e - 1) := by
    rw [low_grid, high_grid]
    push_cast
    ring
  have size : |((k - j : ℤ) : ℚ) * 2 ^ (e - 1)| ≤ 2 ^ 53 * 2 ^ (e - 1) := by
    rw [← whole, abs_of_nonneg (by linarith [cell.low_le, cell.le_high])]
    linarith [cell.low_far, cell.high_far]
  rw [cell.width_eq, whole]
  exact rounded_of_representable (representable_of_grid (by omega) size)

/-- A cell leans to the left by one step to the next number at most. -/
theorem lean_of_power {e : ℤ} (cell : Framed (((2 ^ 53 : ℤ) : ℚ) * 2 ^ e) g low high width)
    (least : -1074 ≤ e) (narrow : g < 10 * 2 ^ e) :
    ((2 ^ 53 : ℤ) : ℚ) * 2 ^ e - low - (high - ((2 ^ 53 : ℤ) : ℚ) * 2 ^ e) ≤ 2 ^ e := by
  have positive := power_pos e
  have reach := cell.positive
  have double : (2 : ℚ) ^ (e + 1) = 2 * 2 ^ e := by
    rw [power_add, zpow_one]
    ring
  have low_size : |((2 ^ 53 : ℤ) : ℚ) * 2 ^ e - g| ≤ 2 ^ 53 * 2 ^ e := by
    rw [abs_le]
    norm_num
    constructor <;> linarith
  have high_size : |((2 ^ 53 : ℤ) : ℚ) * 2 ^ e + g| ≤ 2 ^ 53 * 2 ^ (e + 1) := by
    rw [double, abs_le]
    norm_num
    constructor <;> linarith
  have low_error := abs_le.mp (rounded_error least low_size)
  have high_error := abs_le.mp (rounded_error (by omega : -1074 ≤ e + 1) high_size)
  rw [← cell.low_eq] at low_error
  rw [← cell.high_eq, double] at high_error
  obtain ⟨lowFar, highFar⟩ : 2 ^ 52 * 2 ^ e ≤ |low| ∧ 2 ^ 52 * 2 ^ e ≤ |high| := by
    have center : ((2 ^ 53 : ℤ) : ℚ) * 2 ^ e = 2 ^ 53 * 2 ^ e := by norm_num
    rw [center] at low_error high_error
    constructor
    · exact le_abs.mpr (Or.inl (by linarith [low_error.1]))
    · exact le_abs.mpr (Or.inl (by linarith [high_error.1]))
  obtain ⟨j, rfl⟩ := representable_grid cell.low_representable (Or.inl lowFar)
  obtain ⟨k, rfl⟩ := representable_grid cell.high_representable (Or.inl highFar)
  have lean : ((2 ^ 53 - j - (k - 2 ^ 53) : ℤ) : ℚ) * 2 ^ e < ((2 : ℤ) : ℚ) * 2 ^ e := by
    push_cast at low_error high_error ⊢
    linarith [low_error.1, high_error.1]
  have step := grid_step lean
  push_cast at step ⊢
  linarith

theorem lean_of_grid {m e : ℤ} (cell : Framed ((m : ℚ) * 2 ^ e) g low high width)
    (least : -1074 ≤ e) (digits : |m| < 2 ^ 53) (narrow : g < 5 * 2 ^ e) :
    (m : ℚ) * 2 ^ e - low - (high - (m : ℚ) * 2 ^ e) ≤ 2 ^ e := by
  have positive := power_pos e
  have reach := cell.positive
  have double : (2 : ℚ) ^ (e + 1) = 2 * 2 ^ e := by
    rw [power_add, zpow_one]
    ring
  have size : |(m : ℚ) * 2 ^ e| ≤ 2 ^ 53 * 2 ^ e := by
    have cast : |(m : ℚ)| ≤ 2 ^ 53 := by exact_mod_cast digits.le
    rw [abs_mul, abs_of_pos positive]
    exact mul_le_mul_of_nonneg_right cast positive.le
  by_cases inside : |(m : ℚ) * 2 ^ e| ≤ 2 ^ 53 * 2 ^ e - g
  · have low_size := abs_sub ((m : ℚ) * 2 ^ e) g
    have high_size := abs_add_le ((m : ℚ) * 2 ^ e) g
    rw [abs_of_pos reach] at low_size high_size
    have low_error := abs_le.mp (rounded_error least (low_size.trans (by linarith)))
    have high_error := abs_le.mp (rounded_error least (high_size.trans (by linarith)))
    rw [← cell.low_eq] at low_error
    rw [← cell.high_eq] at high_error
    linarith [low_error.1, high_error.1]
  -- one end may lie past the next power of two, where the grid is twice as coarse
  · obtain ⟨lowFar, highFar⟩ := cell.ends_far (s := 2 ^ 52 * 2 ^ e) narrow (by linarith)
    have lean : ((m : ℚ) * 2 ^ e - g - low) + ((m : ℚ) * 2 ^ e + g - high) < 2 * 2 ^ e := by
      rcases abs_cases ((m : ℚ) * 2 ^ e) with ⟨same, _⟩ | ⟨same, _⟩
      · have low_size : |(m : ℚ) * 2 ^ e - g| ≤ 2 ^ 53 * 2 ^ e :=
          abs_le.mpr ⟨by linarith, by linarith⟩
        have high_size : |(m : ℚ) * 2 ^ e + g| ≤ 2 ^ 53 * 2 ^ (e + 1) := by
          rw [double]
          exact abs_le.mpr ⟨by linarith, by linarith⟩
        have low_error := abs_le.mp (rounded_error least low_size)
        have high_error := abs_le.mp (rounded_error (by omega : -1074 ≤ e + 1) high_size)
        rw [← cell.low_eq] at low_error
        rw [← cell.high_eq, double] at high_error
        linarith [low_error.1, high_error.1]
      · have low_size : |(m : ℚ) * 2 ^ e - g| ≤ 2 ^ 53 * 2 ^ (e + 1) := by
          rw [double]
          exact abs_le.mpr ⟨by linarith, by linarith⟩
        have high_size : |(m : ℚ) * 2 ^ e + g| ≤ 2 ^ 53 * 2 ^ e :=
          abs_le.mpr ⟨by linarith, by linarith⟩
        have low_error := abs_le.mp (rounded_error (by omega : -1074 ≤ e + 1) low_size)
        have high_error := abs_le.mp (rounded_error least high_size)
        rw [← cell.low_eq, double] at low_error
        rw [← cell.high_eq] at high_error
        linarith [low_error.1, high_error.1]
    obtain ⟨j, rfl⟩ := representable_grid cell.low_representable (Or.inl lowFar)
    obtain ⟨k, rfl⟩ := representable_grid cell.high_representable (Or.inl highFar)
    have lean' : ((m - j - (k - m) : ℤ) : ℚ) * 2 ^ e < ((2 : ℤ) : ℚ) * 2 ^ e := by
      push_cast
      linarith
    have step := grid_step lean'
    push_cast at step ⊢
    linarith

/-- What a cell tiny beside its center looks like. -/
structure Tiny (c g low high width a : ℚ) : Prop where
  before : Predecessor c a
  narrow : g < 10 * a
  lean : c - low - (high - c) ≤ a
  exact : width = high - low

theorem tiny_of_grid (cell : Framed c g low high width) (tiny : 2 ^ 53 * g < 5 * |c|)
    (normal : 5 * quantum ≤ g) : ∃ a, Tiny c g low high width a := by
  obtain ⟨m, e, rfl, least, full, digits, narrow⟩ := cell.grid_of_tiny tiny normal
  have positive := power_pos e
  have exact_width : width = high - low := by
    apply cell.width_exact least narrow
    have cast : (2 : ℚ) ^ 52 ≤ |(m : ℚ)| := by exact_mod_cast full
    rw [abs_mul, abs_of_pos positive]
    exact mul_le_mul_of_nonneg_right cast positive.le
  by_cases power : m = 2 ^ 52
  · have half := power_halved e
    have center : (m : ℚ) * 2 ^ e = ((2 ^ 53 : ℤ) : ℚ) * 2 ^ (e - 1) := by
      rw [power, half]
      push_cast
      ring
    rw [center] at cell ⊢
    have narrow' : g < 10 * 2 ^ (e - 1) := by linarith
    exact ⟨2 ^ (e - 1), predecessor_of_power (by omega), narrow',
      cell.lean_of_power (by omega) narrow', exact_width⟩
  · have apart : 2 ^ 52 < m ∨ m ≤ -2 ^ 52 := by
      rcases abs_cases m with ⟨size, _⟩ | ⟨size, _⟩ <;> omega
    exact ⟨2 ^ e, predecessor_of_grid (by omega) digits apart, by linarith,
      cell.lean_of_grid (by omega) digits narrow, exact_width⟩

theorem le_last_of_wide (cell : Framed c g low high width) (wide : 5 * |c| ≤ 2 ^ 53 * g)
    {h t : ℚ} (rep : Representable h) (nonneg : 0 ≤ h) (quarter : 4 * h ≤ width)
    (enough : 3 * (width - width / 2 ^ 40) ≤ 4 * (h + t)) :
    c ≤ rounded (rounded (low + h) + t) := by
  apply le_rounded cell.center
  have first := abs_le.mp (sum_error cell.low_representable rep)
  have size : |low + h| ≤ |c| + 2 * g + h := by
    have outer := abs_add_le low h
    have inner := abs_sub_abs_le_abs_sub low c
    rw [abs_sub_comm, abs_of_nonneg (sub_nonneg.mpr cell.low_le)] at inner
    rw [abs_of_nonneg nonneg] at outer
    linarith [cell.low_far]
  have below := cell.low_le
  have above := cell.le_high
  have low_near := abs_le.mp cell.low_near
  have high_near := abs_le.mp cell.high_near
  have width_near := abs_le.mp cell.width_near
  linarith [cell.positive]

theorem le_last_of_tiny {a : ℚ} (cell : Framed c g low high width)
    (tiny : Tiny c g low high width a) {h t : ℚ} (nonneg : 0 ≤ h)
    (enough : 2 * (width - width / 2 ^ 40) ≤ 3 * t) : c ≤ rounded (rounded (low + h) + t) := by
  by_contra short
  rw [not_le] at short
  have middle := below_of_rounded_lt cell.center short
  have step := tiny.before.last (rounded_representable _) short
  have first := le_rounded cell.low_representable (by linarith : low ≤ low + h)
  have below := cell.low_le
  have above := cell.le_high
  have low_far := cell.low_far
  have high_far := cell.high_far
  rw [tiny.exact] at enough
  linarith [tiny.lean, tiny.narrow, tiny.before.positive]

theorem le_second_of_tiny {a : ℚ} (cell : Framed c g low high width)
    (tiny : Tiny c g low high width a) :
    c ≤ rounded (rounded (low + width / 4) + width / 2) := by
  by_contra short
  rw [not_le] at short
  have middle := below_of_rounded_lt cell.center short
  have step := tiny.before.last (rounded_representable _) short
  have below := cell.low_le
  have above := cell.le_high
  have width_nonneg : 0 ≤ width := by
    rw [tiny.exact]
    linarith
  have first := le_rounded cell.low_representable (by linarith : low ≤ low + width / 4)
  have before := tiny.before.positive
  have passed : rounded (low + width / 4) < c := by linarith
  have step_first := tiny.before.last (rounded_representable _) passed
  have lean := tiny.lean
  have exact_width := tiny.exact
  rcases eq_or_lt_of_le step_first with same | lower
  -- the first middle lies just before the center: so does the lower end, the upper end is the
  -- center, and both ties around the center would have fallen to the left
  · have low_is : low = c - a := by linarith
    have high_is : high = c := by linarith
    have falls : rounded (c - a / 2) < c := by
      have point : rounded (low + width / 4) + width / 2 = c - a / 2 := by
        rw [same, exact_width, low_is, high_is]
        ring
      rwa [point] at short
    have rises := tiny.before.tie falls
    have half : a / 2 ≤ g := by
      have nearest := rounded_nearest (c - g) cell.center
      rw [← cell.low_eq, low_is, sub_sub_cancel, abs_of_pos cell.positive] at nearest
      linarith [(abs_le.mp nearest).1]
    have mono := rounded_mono (by linarith : c + a / 2 ≤ c + g)
    rw [← cell.high_eq, high_is] at mono
    linarith
  · have nearest := below_of_rounded_lt tiny.before.representable lower
    linarith

end Framed
end CurveSketch
