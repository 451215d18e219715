import CurveSketch.Proofs.Slices

/- How a cell with rounded ends overhangs the domain of its scale. The cell of a position inside a
   segment does not pass the start of the segment. The cell at the start of one may pass the
   domain on the left, and then its middles do not step over the domain, however long it is. -/
namespace CurveSketch

theorem rounded_half_quantum : rounded (quantum / 2) = 0 := by
  have ends : Ends (-1074) (((0 : ℤ) : ℚ) * 2 ^ (-1074 : ℤ) + 2 ^ (-1074 : ℤ) / 2) := by
    have positive := power_pos (-1074)
    refine ⟨le_rfl, ?_, Or.inr rfl⟩
    rw [Int.cast_zero, zero_mul, zero_add, abs_of_pos (by linarith)]
    linarith
  have tie := rounded_tie ends
  rwa [Int.cast_zero, zero_mul, zero_add, Int.zero_emod, add_zero, Int.cast_zero, zero_mul] at tie

theorem half_step_le {t : ℚ} {e : ℤ} (room : -1074 < e) (short : t ≤ 2 ^ e / 2)
    (reach : 0 < rounded (t / 2)) : rounded (t / 2) ≤ 2 ^ e / 4 := by
  have half := power_halved e
  by_cases least : e = -1073
  · subst least
    have same : (2 : ℚ) ^ (-1073 - 1 : ℤ) = quantum := rfl
    have none := rounded_mono (by linarith : t / 2 ≤ quantum / 2)
    rw [rounded_half_quantum] at none
    exact absurd reach (not_lt.mpr none)
  · have quarter := power_halved (e - 1)
    have rep : Representable (2 ^ (e - 1 - 1)) :=
      ⟨1, e - 1 - 1, by norm_num, by omega, by rw [Int.cast_one, one_mul]⟩
    have bound := rounded_le rep (by linarith : t / 2 ≤ 2 ^ (e - 1 - 1))
    linarith

/-- Where a number swallows a step it swallows the half of it as well, in the other direction. -/
theorem half_swallowed {a t : ℚ} (start : Representable a) (step : Representable t)
    (nonneg : 0 ≤ t) (swallowed : rounded (a + t) = a) : a ≤ rounded (a - rounded (t / 2)) := by
  obtain ⟨m, e, rfl, digits, least, full⟩ := grid_of_representable start
  have positive := power_pos e
  have nearest := rounded_nearest ((m : ℚ) * 2 ^ e + t) (representable_next digits least)
  rw [swallowed] at nearest
  -- the step is half a place at most
  have short := nearer_left (by linarith) nearest
  by_contra falls
  rw [not_le] at falls
  have middle := below_of_rounded_lt start falls
  have half_le : rounded (t / 2) ≤ t := rounded_le step (by linarith)
  have reach : 0 < rounded (t / 2) := by linarith
  by_cases room : -1074 < e
  · obtain ⟨a, before, wide⟩ := predecessor_of_full room digits (full.resolve_right room.ne')
    have below := before.last (rounded_representable _) falls
    have quarter := half_step_le room (by linarith) reach
    -- the tie falls to the left, so the one on the other side rises
    have tie : (m : ℚ) * 2 ^ e - rounded (t / 2) = m * 2 ^ e - a / 2 := by linarith
    rw [tie] at falls
    have rises := before.tie falls
    have mono := rounded_mono (by linarith : (m : ℚ) * 2 ^ e + a / 2 ≤ m * 2 ^ e + t)
    linarith
  · obtain rfl : e = -1074 := by omega
    have bulk := quantum_step representable_zero step (by linarith)
    change (m : ℚ) * quantum + t ≤ (m * quantum + (m * quantum + quantum)) / 2 at short
    linarith [quantum_pos]

theorem start_le_low {a t : ℚ} (start : Representable a) (step : Representable t)
    (nonneg : 0 ≤ t) : a ≤ rounded (rounded (a + t) - rounded (t / 2)) := by
  have ahead : a ≤ rounded (a + t) := le_rounded start (by linarith)
  rcases eq_or_lt_of_le ahead with same | moved
  · rw [← same]
    exact half_swallowed start step nonneg same.symm
  · apply le_rounded start
    have rep := rounded_representable (a + t)
    have short : t / 2 ≤ rounded (a + t) - a := by
      obtain ⟨m, e, center, digits, least, full⟩ := grid_of_representable rep
      have nearest := rounded_nearest (a + t) (representable_next digits least)
      rw [center] at rep nearest moved ⊢
      have apart := half_place_apart rep full start moved.ne'
      rw [abs_of_pos (sub_pos.mpr moved)] at apart
      linarith [nearer_left (by linarith [power_pos e]) nearest]
    linarith [rounded_half_le step rep start short]

section
variable {h : ℚ} {count k : ℕ}

theorem offset_next (nonneg : 0 ≤ h) (later : 1 ≤ k) :
    offset h (k + 1) - offset h k ≤ 2 * h + offset h k / 2 ^ 48 + 3 * quantum := by
  rw [offset_double, offset_double]
  have cast : (1 : ℚ) ≤ k := by exact_mod_cast later
  have next := abs_le.mp (count_near (k + 1))
  have here := abs_le.mp (count_near k)
  push_cast at next ⊢
  have bulk : h ≤ k * h := le_mul_of_one_le_left nonneg cast
  have high := mul_le_mul_of_nonneg_right next.2 nonneg
  have low := mul_le_mul_of_nonneg_right here.1 nonneg
  have wide : 0 ≤ rounded k * h := by linarith
  have wide' : 0 ≤ rounded (k + 1) * h := by
    have up := rounded_mono (by linarith : (k : ℚ) ≤ k + 1)
    have scaled := mul_le_mul_of_nonneg_right up nonneg
    linarith
  have above := (abs_le.mp (rounded_near (rounded (k + 1) * h))).2
  have below := (abs_le.mp (rounded_near (rounded k * h))).1
  rw [abs_of_nonneg wide'] at above
  rw [abs_of_nonneg wide] at below
  linarith [quantum_pos]

theorem offset_exact (rep : Representable h) (nonneg : 0 ≤ h) (few : k ≤ 2 ^ 53)
    (small : k * h ≤ 2 ^ 53 * quantum) : offset h k = 2 * (k * h) := by
  obtain ⟨j, rfl⟩ := representable_quanta rep
  have whole : (k : ℚ) * (j * quantum) = ((k * j : ℤ) : ℚ) * quantum := by
    push_cast
    ring
  have exact_product : Representable (k * (j * quantum)) := by
    rw [whole]
    refine representable_of_quanta ?_
    rwa [← whole, abs_of_nonneg (mul_nonneg (Nat.cast_nonneg k) nonneg)]
  rw [offset_double, rounded_nat few, rounded_of_representable exact_product]
  ring

theorem offset_small (rep : Representable h) (nonneg : 0 ≤ h) (later : 1 ≤ k)
    (few : offset h k ≤ 2 ^ 50 * quantum) : offset h (k + 1) - offset h k = 2 * h := by
  rcases eq_or_lt_of_le nonneg with rfl | positive
  · simp [offset_double, rounded_zero]
  have tiny := quantum_pos
  have least := quantum_step representable_zero rep positive
  rw [offset_double] at few
  have product : rounded k * h < 2 ^ 50 * quantum := by
    by_contra large
    linarith [le_rounded (representable_quantum 50) (not_lt.mp large)]
  have small : k < 2 ^ 50 := by
    by_contra many
    have bound := count_ge (k := 2 ^ 50) (by norm_num) (not_lt.mp many)
    have scaled := mul_le_mul bound (by linarith : quantum ≤ h) tiny.le (by linarith)
    push_cast at scaled
    linarith
  rw [rounded_nat (by omega)] at product
  have cast : (1 : ℚ) ≤ k := by exact_mod_cast later
  have bulk : h ≤ k * h := le_mul_of_one_le_left nonneg cast
  rw [offset_exact rep nonneg (by omega) (by push_cast; linarith),
    offset_exact rep nonneg (by omega) (by linarith)]
  push_cast
  ring

theorem halfSlice_share (nonneg : 0 ≤ width) {n : ℕ} (some : 1 ≤ n) (small : n ≤ 2 ^ 53)
    (many : n ≤ count) : 2 * halfSlice width count ≤ width / n * (1 + 1 / 2 ^ 51) + 2 * quantum := by
  have tiny := quantum_pos
  have cast : (1 : ℚ) ≤ n := by exact_mod_cast some
  have bound := count_ge small many
  have counted : 0 < rounded count := by linarith
  have share : width / rounded count ≤ width / n :=
    div_le_div_of_nonneg_left nonneg (by linarith) bound
  have part : 0 ≤ width / rounded count := div_nonneg nonneg counted.le
  have slice := (abs_le.mp (rounded_near (width / rounded count))).2
  rw [abs_of_nonneg part] at slice
  have half := (abs_le.mp (half_error (rounded_representable (width / rounded count)))).2
  unfold halfSlice
  linarith

end

namespace Framed
variable {c g low high width left : ℚ} {count k : ℕ}

theorem halfSlice_le (cell : Framed c g low high width) (many : 2 ≤ count) :
    halfSlice width count ≤ g := by
  have two : (2 : ℚ) ≤ rounded count := by
    have bound := count_ge (k := 2) (by norm_num) many
    exact_mod_cast bound
  have share : width / rounded count ≤ g * 2 := by
    rw [div_le_iff₀ (by linarith)]
    have scaled := mul_le_mul_of_nonneg_left two (by linarith [cell.positive] : 0 ≤ g * 2)
    linarith [cell.width_le]
  have slice := rounded_le (representable_double cell.reach) share
  exact rounded_le cell.reach (by linarith)

theorem low_le_first (cell : Framed c g low high width) (count : ℕ) :
    low ≤ rounded (low + halfSlice width count) :=
  le_rounded cell.low_representable (by linarith [halfSlice_nonneg cell.width_nonneg count])

theorem first_le_point (cell : Framed c g low high width) (count k : ℕ) :
    rounded (low + halfSlice width count) ≤ point low width count k := by
  have nonneg := halfSlice_nonneg cell.width_nonneg count
  have counted := le_rounded representable_zero (Nat.cast_nonneg k : (0 : ℚ) ≤ k)
  have shift := le_rounded representable_zero (mul_nonneg counted nonneg)
  refine le_rounded (rounded_representable _) ?_
  rw [offset_double]
  linarith

theorem before_center (left_rep : Representable left) (left_le : left ≤ c)
    (before : point low width count k < left) :
    rounded (low + halfSlice width count) + offset (halfSlice width count) k < c := by
  by_contra beyond
  have reached := le_rounded left_rep (left_le.trans (not_lt.mp beyond))
  exact absurd before (not_lt.mpr reached)

theorem offset_gap (cell : Framed c g low high width) {n : ℕ} (some : 1 ≤ n) (small : n ≤ 2 ^ 53)
    (many : n ≤ count) (k : ℕ) :
    offset (halfSlice width count) (k + 1) - offset (halfSlice width count) k ≤
      width / n * (1 + 1 / 2 ^ 51) + offset (halfSlice width count) k / 2 ^ 48 + 5 * quantum := by
  have tiny := quantum_pos
  have share := halfSlice_share cell.width_nonneg some small many
  have nonneg := halfSlice_nonneg cell.width_nonneg count
  rcases Nat.eq_zero_or_pos k with rfl | later
  · have rep : Representable (halfSlice width count) := rounded_representable _
    rw [offset_zero, offset_one rep]
    linarith
  · linarith [offset_next nonneg later]

variable (cell : Framed c g low high width) (below : k + 1 < count)
  (before : rounded (low + halfSlice width count) + offset (halfSlice width count) k < c)
include cell below before

/-- From a middle left of the center the next one steps over the center by less than a step. -/
theorem next_near :
    rounded (low + halfSlice width count) + offset (halfSlice width count) (k + 1) ≤
      c + 2 * g - quantum := by
  have tiny := quantum_pos
  have reach := cell.positive
  have slice := cell.halfSlice_le (by omega : 2 ≤ count)
  have nonneg := halfSlice_nonneg cell.width_nonneg count
  have rep : Representable (halfSlice width count) := rounded_representable _
  have first_rep := rounded_representable (low + halfSlice width count)
  have low_first := cell.low_le_first count
  rcases Nat.eq_zero_or_pos k with rfl | later
  · rw [offset_zero, add_zero] at before
    rw [offset_one rep]
    linarith [quantum_step first_rep cell.center before]
  · by_cases few : offset (halfSlice width count) k ≤ 2 ^ 50 * quantum
    · have step := offset_small rep nonneg later few
      have offset_rep : Representable (offset (halfSlice width count) k) := rounded_representable _
      linarith [quantum_step_sum first_rep offset_rep cell.center before]
    · have gap := cell.offset_gap (n := 3) (by norm_num) (by norm_num) (by omega : 3 ≤ count) k
      push_cast at gap
      linarith [cell.low_far, cell.width_le]

theorem next_close (wide : |c| ≤ 20 * g) (large : 2 ^ 40 * quantum ≤ g) :
    rounded (low + halfSlice width count) + offset (halfSlice width count) (k + 1) ≤
      c + 3 / 2 * g := by
  have tiny := quantum_pos
  have low_first := cell.low_le_first count
  have low_near := abs_le.mp cell.low_near
  have high_near := abs_le.mp cell.high_near
  have width_near := abs_le.mp cell.width_near
  have gap := cell.offset_gap (n := 2) (by norm_num) (by norm_num) (by omega : 2 ≤ count) k
  push_cast at gap
  linarith

theorem next_bounded {limit : ℚ} (large : 2 ^ 60 * quantum ≤ limit) (center_within : |c| < limit)
    (width_within : width < limit) (reach_within : 2 * g ≤ limit) :
    offset (halfSlice width count) (k + 1) < limit := by
  have tiny := quantum_pos
  have low_first := cell.low_le_first count
  have low_near := abs_le.mp cell.low_near
  rcases Nat.eq_zero_or_pos k with rfl | later
  · have gap := cell.offset_gap (n := 2) (by norm_num) (by norm_num) (by omega : 2 ≤ count) 0
    rw [offset_zero] at gap
    push_cast at gap
    linarith [cell.width_nonneg]
  · have gap := cell.offset_gap (n := 3) (by norm_num) (by norm_num) (by omega : 3 ≤ count) k
    push_cast at gap
    linarith

end Framed

/-- Where a difference is rounded the numbers are not much larger than it. -/
theorem close_or_wide {a b : ℚ} (left : Representable a) (right : Representable b) (rises : a < b) :
    Representable (b - a) ∨ |a| ≤ 2 * (b - a) := by
  by_cases wide : |a| ≤ 2 * (b - a)
  · exact Or.inr wide
  rw [not_le] at wide
  left
  obtain ⟨m, e, rfl, digits, least, full⟩ := grid_of_representable left
  have positive := power_pos e
  have far := abs_sub_abs_le_abs_sub ((m : ℚ) * 2 ^ e) b
  rw [abs_sub_comm, abs_of_pos (sub_pos.mpr rises)] at far
  have digits' : |(m : ℚ)| < 2 ^ 53 := by exact_mod_cast digits
  have small : |(m : ℚ) * 2 ^ e| < 2 ^ 53 * 2 ^ e := by
    rw [abs_mul, abs_of_pos positive]
    exact mul_lt_mul_of_pos_right digits' positive
  have half := power_halved e
  have finer : (2 : ℚ) ^ (e - 1) ≤ 2 ^ max (e - 1) (-1074) := power_le (le_max_left _ _)
  have place : 2 ^ 52 * (2 : ℚ) ^ max (e - 1) (-1074) ≤ |b| ∨ max (e - 1) (-1074) ≤ -1074 := by
    by_cases room : -1074 < e
    · left
      have full' : (2 : ℚ) ^ 52 ≤ |(m : ℚ)| := by exact_mod_cast full.resolve_right room.ne'
      have size := mul_le_mul_of_nonneg_right full' positive.le
      rw [← abs_of_pos positive, ← abs_mul, abs_of_pos positive] at size
      rw [max_eq_left (by omega)]
      linarith
    · right
      omega
  obtain ⟨j, coarse⟩ := grid_coarse (by omega : max (e - 1) (-1074) ≤ e) m
  obtain ⟨k, rfl⟩ := representable_grid right place
  have whole : (k : ℚ) * 2 ^ max (e - 1) (-1074) - m * 2 ^ e =
      ((k - j : ℤ) : ℚ) * 2 ^ max (e - 1) (-1074) := by
    rw [coarse]
    push_cast
    ring
  rw [whole]
  refine representable_of_grid (le_max_right _ _) ?_
  rw [← whole, abs_of_pos (sub_pos.mpr rises)]
  linarith

/-- How far the domain reaches to the right of the start `c` of a segment with step `t`. -/
def Reaches (c t g right : ℚ) : Prop :=
  rounded (c + t) ≤ right ∨ |c| ≤ 20 * g ∧ 2 ^ 40 * quantum ≤ g ∧ c + 3 / 2 * g ≤ right

theorem Reaches.mono {c t g right further : ℚ} (reaches : Reaches c t g right)
    (le : right ≤ further) : Reaches c t g further := by
  rcases reaches with far | ⟨wide, large, near⟩
  · exact Or.inl (far.trans le)
  · exact Or.inr ⟨wide, large, near.trans le⟩

theorem reaches_stop {a b t : ℚ} {n : ℕ} (left : Representable a) (right : Representable b)
    (rises : a < b) (some : 1 ≤ n) (step : t = rounded (rounded (b - a) / n)) :
    Reaches a t (rounded (t / 2)) b := by
  have tiny := quantum_pos
  have cast : (1 : ℚ) ≤ n := by exact_mod_cast some
  have difference := rounded_representable (b - a)
  have rise : 0 ≤ rounded (b - a) := le_rounded representable_zero (by linarith)
  have step_le : t ≤ rounded (b - a) := by
    rw [step]
    exact rounded_le difference (div_le_self rise cast)
  by_cases exact_rise : Representable (b - a)
  · left
    rw [rounded_of_representable exact_rise] at step_le
    exact rounded_le right (by linarith)
  have wide := (close_or_wide left right rises).resolve_left exact_rise
  have large := quanta_of_not_representable left right exact_rise
  rw [abs_of_pos (sub_pos.mpr rises)] at large
  have near := abs_le.mp (difference_error right left)
  rw [abs_of_pos (sub_pos.mpr rises)] at near
  have full : 2 ^ 53 * quantum ≤ |rounded (b - a)| :=
    (le_rounded (representable_quantum 53) large.le).trans (le_abs_self _)
  have half := representable_half difference full
  rcases eq_or_lt_of_le some with one | several
  · right
    rw [← one, Nat.cast_one, div_one, rounded_of_representable difference] at step
    rw [step, rounded_of_representable half]
    exact ⟨by linarith, by linarith, by linarith⟩
  · left
    have cast' : (2 : ℚ) ≤ n := by exact_mod_cast several
    have share : rounded (b - a) / n ≤ rounded (b - a) / 2 :=
      div_le_div_of_nonneg_left rise (by norm_num) cast'
    have short := rounded_le half share
    rw [← step] at short
    exact rounded_le right (by linarith)

namespace Framed
variable {c t low high width right : ℚ} {count k : ℕ}

section
variable (cell : Framed c (rounded (t / 2)) low high width) (step : Representable t)
  (right_rep : Representable right) (reaches : Reaches c t (rounded (t / 2)) right)
include cell step right_rep reaches

theorem first_le_right (many : 2 ≤ count) : point low width count 0 ≤ right := by
  have slice := cell.halfSlice_le many
  have positive := cell.positive
  have half_le : rounded (t / 2) ≤ t := by
    apply rounded_le step
    by_contra fall
    have mono := rounded_mono (by linarith : t / 2 ≤ 0)
    rw [rounded_zero] at mono
    linarith
  rw [point_zero]
  rcases reaches with far | ⟨_, _, near⟩
  · exact (rounded_mono (by linarith [cell.low_le])).trans far
  · exact rounded_le right_rep (by linarith [cell.low_le])

theorem next_le_right (below : k + 1 < count)
    (before : rounded (low + halfSlice width count) + offset (halfSlice width count) k < c) :
    point low width count (k + 1) ≤ right := by
  rcases reaches with far | ⟨wide, large, near⟩
  · have half := (abs_le.mp (half_error step)).2
    have next := cell.next_near below before
    exact (rounded_mono (by linarith [quantum_pos])).trans far
  · exact rounded_le right_rep ((cell.next_close below before wide large).trans near)

end
end Framed
end CurveSketch
