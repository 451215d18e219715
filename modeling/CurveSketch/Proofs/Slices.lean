import CurveSketch.Proofs.RoundedCells

/- Slices of a cell whose ends are rounded. As long as half a slice loses no digits, the first
   middle does not pass the center of the cell and the last one reaches it. -/
namespace CurveSketch

/-- Half of one of `count` slices. -/
def halfSlice (width : ℚ) (count : ℕ) : ℚ := rounded (rounded (width / rounded count) / 2)

/-- How far the middle of a slice lies from the middle of the first one. -/
def offset (h : ℚ) (k : ℕ) : ℚ := rounded (rounded (rounded k * h) * 2)

theorem quantum_le_one : 2 ^ 60 * quantum ≤ 1 := by
  have coarse : quantum ≤ 2 ^ (-60 : ℤ) := power_le (by norm_num)
  norm_num at coarse ⊢
  linarith

theorem count_near (k : ℕ) : |rounded k - k| ≤ k / 2 ^ 53 := by
  rcases Nat.eq_zero_or_pos k with zero | positive
  · rw [zero, Nat.cast_zero, rounded_zero]
    norm_num
  · have cast : (1 : ℚ) ≤ k := by exact_mod_cast positive
    have size : |(k : ℚ)| = k := abs_of_nonneg (by linarith)
    have error := normal_error (x := (k : ℚ)) (by
      rw [size]
      linarith [quantum_le_one, quantum_pos])
    rwa [size] at error

theorem representable_small {k : ℕ} (small : k ≤ 2 ^ 53) : Representable k :=
  ⟨k, 0, by rw [abs_of_nonneg (Int.natCast_nonneg k)]; exact_mod_cast small, by norm_num, by simp⟩

theorem count_ge {k count : ℕ} (small : k ≤ 2 ^ 53) (le : k ≤ count) : (k : ℚ) ≤ rounded count :=
  le_rounded (representable_small small) (by exact_mod_cast le)

theorem halfSlice_nonneg {width : ℚ} (nonneg : 0 ≤ width) (count : ℕ) :
    0 ≤ halfSlice width count := by
  have counted := le_rounded representable_zero (Nat.cast_nonneg count : (0 : ℚ) ≤ count)
  have slice := le_rounded representable_zero (div_nonneg nonneg counted)
  exact le_rounded representable_zero (div_nonneg slice zero_le_two)

section
variable {width : ℚ} {count : ℕ}

theorem ratio_near (positive : 0 < width) (many : 2 ≤ count) :
    |width / rounded count - width / count| ≤ width / count * (2 / 2 ^ 53) := by
  have near := abs_le.mp (count_near count)
  have cast : (2 : ℚ) ≤ count := by exact_mod_cast many
  have share : 0 < width / count := div_pos positive (by linarith)
  have whole : width = width / count * count := by
    rw [div_mul_cancel₀]
    linarith
  have divisor : 0 < rounded count := by linarith
  generalize width / count = r at *
  have low := mul_le_mul_of_nonneg_left near.1 share.le
  have high := mul_le_mul_of_nonneg_left near.2 share.le
  have bulk : 0 < r * count := mul_pos share (by linarith)
  have lower : r - r * (2 / 2 ^ 53) ≤ width / rounded count := by
    rw [le_div_iff₀ divisor]
    linarith
  have upper : width / rounded count ≤ r + r * (2 / 2 ^ 53) := by
    rw [div_le_iff₀ divisor]
    linarith
  rw [abs_le]
  constructor <;> linarith

theorem ratio_normal (fine : 2 ^ 53 * quantum ≤ rounded (width / rounded count)) :
    2 ^ 52 * quantum ≤ width / rounded count := by
  by_contra small
  have bound := rounded_le (representable_quantum 52) (not_le.mp small).le
  linarith [quantum_pos]

theorem width_ge (many : 2 ≤ count) (fine : 2 ^ 53 * quantum ≤ rounded (width / rounded count)) :
    2 ^ 53 * quantum ≤ width := by
  have two : (2 : ℚ) ≤ rounded count := by exact_mod_cast count_ge (k := 2) (by norm_num) many
  have normal := ratio_normal fine
  rw [le_div_iff₀ (by linarith)] at normal
  have tiny := quantum_pos
  have scaled := mul_le_mul_of_nonneg_left two (by linarith : 0 ≤ 2 ^ 52 * quantum)
  linarith

theorem halfSlice_eq (fine : 2 ^ 53 * quantum ≤ rounded (width / rounded count)) :
    halfSlice width count = rounded (width / rounded count) / 2 :=
  rounded_of_representable (representable_half (rounded_representable _)
    (fine.trans (le_abs_self _)))

theorem slice_near (many : 2 ≤ count)
    (fine : 2 ^ 53 * quantum ≤ rounded (width / rounded count)) :
    |rounded (width / rounded count) - width / count| ≤ width / count * (4 / 2 ^ 53) := by
  have tiny := quantum_pos
  have normal := ratio_normal fine
  have large := width_ge many fine
  have positive : 0 < width / rounded count := by linarith
  have near := abs_le.mp (ratio_near (by linarith : 0 < width) many)
  have error := normal_error (normal.trans (le_abs_self _))
  rw [abs_of_pos positive] at error
  have error' := abs_le.mp error
  rw [abs_le]
  constructor <;> linarith

theorem offset_double (h : ℚ) (k : ℕ) : offset h k = rounded (rounded k * h) * 2 :=
  rounded_of_representable (representable_double (rounded_representable _))

theorem offset_near {h : ℚ} (large : 2 ^ 52 * quantum ≤ h) (k : ℕ) :
    |offset h k - 2 * (k * h)| ≤ 2 * (k * h) * (3 / 2 ^ 53) := by
  have tiny := quantum_pos
  have positive : 0 < h := by linarith
  rw [offset_double]
  rcases Nat.eq_zero_or_pos k with zero | some_
  · rw [zero, Nat.cast_zero, rounded_zero, zero_mul, rounded_zero]
    norm_num
  · have cast : (1 : ℚ) ≤ k := by exact_mod_cast some_
    have counted : (1 : ℚ) ≤ rounded k := by exact_mod_cast count_ge (k := 1) (by norm_num) some_
    have near := abs_le.mp (count_near k)
    have low := mul_le_mul_of_nonneg_right near.1 positive.le
    have high := mul_le_mul_of_nonneg_right near.2 positive.le
    have bulk : h ≤ k * h := le_mul_of_one_le_left positive.le cast
    have product : h ≤ rounded k * h := le_mul_of_one_le_left positive.le counted
    have error := normal_error ((large.trans product).trans (le_abs_self _))
    rw [abs_of_pos (positive.trans_le product)] at error
    have error' := abs_le.mp error
    rw [abs_le]
    constructor <;> linarith

theorem offset_zero (h : ℚ) : offset h 0 = 0 := by
  rw [offset_double, Nat.cast_zero, rounded_zero, zero_mul, rounded_zero, zero_mul]

theorem rounded_nat {k : ℕ} (small : k ≤ 2 ^ 53) : rounded k = k :=
  rounded_of_representable (representable_small small)

theorem offset_one {h : ℚ} (rep : Representable h) : offset h 1 = h * 2 := by
  rw [offset_double, rounded_nat (by norm_num), Nat.cast_one, one_mul,
    rounded_of_representable rep]

theorem halfSlice_two (rep : Representable width)
    (fine : 2 ^ 53 * quantum ≤ rounded (width / rounded (2 : ℕ))) :
    halfSlice width 2 = width / 4 ∧ Representable (width / 4) := by
  have half := representable_half rep ((width_ge le_rfl fine).trans (le_abs_self _))
  have exact_half : rounded (width / rounded (2 : ℕ)) = width / 2 := by
    rw [rounded_nat (by norm_num), Nat.cast_ofNat, rounded_of_representable half]
  have same : width / 2 / 2 = width / 4 := by ring
  rw [halfSlice_eq fine, exact_half, same]
  rw [exact_half] at fine
  have quarter := representable_half half (fine.trans (le_abs_self _))
  rw [same] at quarter
  exact ⟨rfl, quarter⟩

theorem halfSlice_quarter (rep : Representable width) (many : 2 ≤ count)
    (fine : 2 ^ 53 * quantum ≤ rounded (width / rounded count)) :
    4 * halfSlice width count ≤ width := by
  have tiny := quantum_pos
  have large := width_ge many fine
  have half := representable_half rep (large.trans (le_abs_self _))
  have two : (2 : ℚ) ≤ rounded count := by exact_mod_cast count_ge (k := 2) (by norm_num) many
  have share : width / rounded count ≤ width / 2 :=
    div_le_div_of_nonneg_left (by linarith) (by norm_num) two
  rw [halfSlice_eq fine]
  linarith [rounded_le half share]

theorem slices_fill (many : 2 ≤ count)
    (fine : 2 ^ 53 * quantum ≤ rounded (width / rounded count)) :
    2 ^ 52 * quantum ≤ halfSlice width count ∧
      |2 * (count * halfSlice width count) - width| ≤ width * (4 / 2 ^ 53) := by
  have cast : (2 : ℚ) ≤ count := by exact_mod_cast many
  have near := slice_near many fine
  have whole : width / count * count = width := div_mul_cancel₀ _ (by linarith)
  rw [halfSlice_eq fine]
  generalize rounded (width / rounded count) = q at *
  constructor
  · linarith
  · have total : 2 * (count * (q / 2)) - width = (q - width / count) * count := by
      rw [sub_mul, whole]
      ring
    have share : width * (4 / 2 ^ 53) = width / count * (4 / 2 ^ 53) * count := by
      rw [mul_right_comm, whole]
    rw [total, share, abs_mul, abs_of_nonneg (by linarith : (0 : ℚ) ≤ count)]
    exact mul_le_mul_of_nonneg_right near (by linarith)

theorem offset_last (many : 2 ≤ count)
    (fine : 2 ^ 53 * quantum ≤ rounded (width / rounded count))
    (quarter : 4 * halfSlice width count ≤ width) :
    3 * (width - width / 2 ^ 40) ≤
        4 * (halfSlice width count + offset (halfSlice width count) (count - 1)) ∧
      (3 ≤ count →
        2 * (width - width / 2 ^ 40) ≤ 3 * offset (halfSlice width count) (count - 1)) := by
  obtain ⟨large, fill⟩ := slices_fill many fine
  have tiny := quantum_pos
  generalize halfSlice width count = h at *
  have last := abs_le.mp (offset_near large (count - 1))
  have fill' := abs_le.mp fill
  rw [Nat.cast_sub (by omega), Nat.cast_one] at last
  constructor
  · linarith
  · intro three
    have cast : (3 : ℚ) ≤ count := by exact_mod_cast three
    have third := mul_le_mul_of_nonneg_right cast (by linarith : 0 ≤ h)
    linarith

end

namespace Framed
variable {c g low high width : ℚ}

def point (low width : ℚ) (count k : ℕ) : ℚ :=
  rounded (rounded (low + halfSlice width count) + offset (halfSlice width count) k)

theorem width_representable (cell : Framed c g low high width) : Representable width := by
  rw [cell.width_eq]
  exact rounded_representable _

theorem width_le (cell : Framed c g low high width) : width ≤ 4 * g := by
  have rep := representable_double (representable_double cell.reach)
  rw [cell.width_eq]
  have bound := rounded_le rep (by linarith [cell.low_far, cell.high_far] : high - low ≤ g * 2 * 2)
  linarith

theorem width_nonneg (cell : Framed c g low high width) : 0 ≤ width := by
  rw [cell.width_eq]
  exact le_rounded representable_zero (by linarith [cell.low_le, cell.le_high])

theorem point_zero (low width : ℚ) (count : ℕ) :
    point low width count 0 = rounded (low + halfSlice width count) := by
  rw [point, offset_zero, add_zero, rounded_of_representable (rounded_representable _)]

section
variable {count : ℕ} (cell : Framed c g low high width) (many : 2 ≤ count)
  (fine : 2 ^ 53 * quantum ≤ rounded (width / rounded count))
include cell many fine

theorem first_le_center : point low width count 0 ≤ c := by
  rw [point_zero]
  exact cell.first_le (halfSlice_quarter cell.width_representable many fine)

theorem le_last : c ≤ point low width count (count - 1) := by
  have tiny := quantum_pos
  have large := width_ge many fine
  have quarter := halfSlice_quarter cell.width_representable many fine
  obtain ⟨thick, _⟩ := slices_fill many fine
  obtain ⟨both, last⟩ := offset_last many fine quarter
  by_cases wide : 5 * |c| ≤ 2 ^ 53 * g
  · exact cell.le_last_of_wide wide (rounded_representable _) (by linarith) quarter both
  · rw [not_le] at wide
    obtain ⟨a, small⟩ := cell.tiny_of_grid wide (by linarith [cell.width_le])
    by_cases two : count = 2
    · subst two
      obtain ⟨half, half_rep⟩ := halfSlice_two cell.width_representable fine
      have twice : width / 4 * 2 = width / 2 := by ring
      rw [point, half, offset_one half_rep, twice]
      exact cell.le_second_of_tiny small
    · exact cell.le_last_of_tiny small (by linarith) (last (by omega))

end
end Framed
end CurveSketch
