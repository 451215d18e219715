import CurveSketch.Proofs.FiniteCells
import CurveSketch.Proofs.Heights
import CurveSketch.Proofs.Slices

/- The midpoints of a cell in doubles. A share of the width may underflow, its multiples may
   overflow; what is finite is the midpoint in exact numbers, rounded at each operation. -/
namespace CurveSketch

/-- The least double whose digits are all kept. -/
def leastNormal : Float := Float.ofBits 0x0010000000000000

/-- Twice that much: the half of it still has all its digits. -/
def finest : Float := Float.ofBits 0x0020000000000000

theorem leastNormal_worth :
    leastNormal.isFinite = true ∧ worth leastNormal = 2 ^ 52 * quantum := by
  have shape : (Float.ofBits 0x0010000000000000).toModel.unpack =
      .finite .positive (2 ^ 52) (-1074) (by norm_num) := by rfl
  have value : reading leastNormal = .number (((2 ^ 52 : ℕ) : ℚ) * 2 ^ (-1074 : ℤ)) := by
    rw [leastNormal, reading, shape]
    rfl
  rw [Nat.cast_pow, Nat.cast_ofNat] at value
  exact finite_of_reading value

theorem finest_worth : finest.isFinite = true ∧ worth finest = 2 ^ 53 * quantum := by
  have shape : (Float.ofBits 0x0020000000000000).toModel.unpack =
      .finite .positive (2 ^ 52) (-1073) (by norm_num) := by rfl
  have value : reading finest = .number (((2 ^ 52 : ℕ) : ℚ) * 2 ^ (-1073 : ℤ)) := by
    rw [finest, reading, shape]
    rfl
  have same : ((2 ^ 52 : ℕ) : ℚ) * 2 ^ (-1073 : ℤ) = 2 ^ 53 * quantum := by
    have exponent : (-1073 : ℤ) = (1 : ℕ) + -1074 := by norm_num
    rw [exponent, power_quantum]
    push_cast
    ring
  rw [same] at value
  exact finite_of_reading value

theorem quotient_within {x y : ℚ} (rep : Representable x) (divisor : 1 ≤ y) :
    |rounded (x / y)| ≤ |x| := by
  have bounds := abs_le.mp (le_refl |x|)
  have size : |x / y| ≤ |x| := by
    rw [abs_div, abs_of_pos (by linarith : 0 < y)]
    exact div_le_self (abs_nonneg x) divisor
  have absolute : Representable |x| := by
    rcases abs_choice x with same | opposite
    · rwa [same]
    · rw [opposite]
      exact representable_neg rep
  have limits := abs_le.mp size
  rw [abs_le]
  exact ⟨le_rounded (representable_neg absolute) limits.1, rounded_le absolute limits.2⟩

theorem share_worth {a : Float} {count : ℕ} (finite : a.isFinite = true) (some : 1 ≤ count)
    (counted : (Float.ofNat count).isFinite = true) :
    (a / (count : Float)).isFinite = true ∧
      worth (a / (count : Float)) = rounded (worth a / rounded count) := by
  have number := worth_nat counted
  have divisor : (1 : ℚ) ≤ rounded count := by
    exact_mod_cast count_ge (k := 1) (by norm_num) some
  have nonzero : worth (Float.ofNat count) ≠ 0 := by
    rw [number]
    linarith
  have within : |rounded (worth a / worth (Float.ofNat count))| < 2 ^ (1024 : ℤ) := by
    rw [number]
    exact (quotient_within (worth_representable a) divisor).trans_lt (worth_bounded finite)
  have parts := finite_div finite counted nonzero within
  rwa [number] at parts

theorem share_of_uncounted {w : Float} {count : ℕ} (finite : w.isFinite = true)
    (uncounted : ¬ (Float.ofNat count).isFinite = true) :
    (w / (count : Float)).isFinite = true ∧ worth (w / (count : Float)) = 0 := by
  cases value : reading (Float.ofNat count) with
  | number x => exact absurd (finite_of_reading value).1 uncounted
  | undefined => exact absurd ((reading_ofNat count).symm.trans value) (Extended.stored_defined _)
  | infinite s => exact finite_of_reading (reading_div_infinite (reading_worth finite) value)

theorem finite_of_share {w : Float} {count : ℕ} (finite : (w / (count : Float)).isFinite = true)
    (nonzero : worth (w / (count : Float)) ≠ 0) :
    w.isFinite = true ∧ (Float.ofNat count).isFinite = true := by
  have whole := finite_of_div finite
  refine ⟨whole, ?_⟩
  by_contra uncounted
  exact nonzero (share_of_uncounted whole uncounted).2

theorem share_zero {w : Float} {count : ℕ} (finite : w.isFinite = true) (none : worth w = 0)
    (some : 1 ≤ count) :
    (w / (count : Float)).isFinite = true ∧ worth (w / (count : Float)) = 0 := by
  by_cases counted : (Float.ofNat count).isFinite = true
  · obtain ⟨share_finite, share⟩ := share_worth finite some counted
    rw [none, zero_div, rounded_zero] at share
    exact ⟨share_finite, share⟩
  · exact share_of_uncounted finite counted

theorem finest_share {w : Float} {count : ℕ} (finite : w.isFinite = true) (some : 1 ≤ count)
    (fine : finest ≤ w / (count : Float)) :
    (Float.ofNat count).isFinite = true ∧ 2 ^ 53 * quantum ≤ rounded (worth w / rounded count) := by
  obtain ⟨finest_finite, least⟩ := finest_worth
  have counted : (Float.ofNat count).isFinite = true := by
    by_contra uncounted
    obtain ⟨zero_finite, zero⟩ := share_of_uncounted finite uncounted
    have order := (le_iff_worth finest_finite zero_finite).mp fine
    linarith [quantum_pos]
  obtain ⟨share_finite, share⟩ := share_worth finite some counted
  have order := (le_iff_worth finest_finite share_finite).mp fine
  rw [least, share] at order
  exact ⟨counted, order⟩

theorem count_finite {k count : ℕ} (le : k ≤ count)
    (finite : (Float.ofNat count).isFinite = true) :
    (Float.ofNat k).isFinite = true ∧ worth (Float.ofNat k) = rounded k := by
  have bound := worth_bounded finite
  rw [worth_nat finite] at bound
  have cast : (k : ℚ) ≤ count := by exact_mod_cast le
  have within : |rounded k| < 2 ^ (1024 : ℤ) := by
    rw [abs_of_nonneg (le_rounded representable_zero (Nat.cast_nonneg k))]
    exact (rounded_mono cast).trans_lt ((le_abs_self _).trans_lt bound)
  apply finite_of_reading
  rw [reading_ofNat]
  exact stored_within within

theorem half_finite {a : Float} (finite : a.isFinite = true) :
    (half a).isFinite = true ∧ worth (half a) = rounded (worth a / 2) := by
  obtain ⟨finite_two, two_is⟩ := worth_two
  have within : |rounded (worth a / worth two)| < 2 ^ (1024 : ℤ) := by
    rw [two_is]
    exact (quotient_within (worth_representable a) one_le_two).trans_lt (worth_bounded finite)
  have parts := finite_div finite finite_two (by rw [two_is]; norm_num) within
  rwa [two_is] at parts

theorem halfSlice_worth {w : Float} {count : ℕ} (finite : w.isFinite = true) (some : 1 ≤ count)
    (counted : (Float.ofNat count).isFinite = true) :
    (half (w / (count : Float))).isFinite = true ∧
      worth (half (w / (count : Float))) = halfSlice (worth w) count := by
  obtain ⟨finite_share, share⟩ := share_worth finite some counted
  obtain ⟨finite_half, value⟩ := half_finite finite_share
  rw [share] at value
  exact ⟨finite_half, value⟩

theorem offset_worth {h : Float} {k : ℕ} (finite : h.isFinite = true)
    (counted : (Float.ofNat k).isFinite = true) (nonneg : 0 ≤ worth h)
    (within : offset (worth h) k < 2 ^ (1024 : ℤ)) :
    ((k : Float) * h * two).isFinite = true ∧
      worth ((k : Float) * h * two) = offset (worth h) k := by
  obtain ⟨finite_two, two_is⟩ := worth_two
  have number := worth_nat counted
  have double := offset_double (worth h) k
  have counted_nonneg := le_rounded representable_zero (Nat.cast_nonneg k : (0 : ℚ) ≤ k)
  have positive := le_rounded representable_zero (mul_nonneg counted_nonneg nonneg)
  have product_within : |rounded (worth (Float.ofNat k) * worth h)| < 2 ^ (1024 : ℤ) := by
    have smaller : rounded (rounded k * worth h) ≤ offset (worth h) k := by
      rw [double]
      linarith
    rw [number, abs_of_nonneg positive]
    exact smaller.trans_lt within
  obtain ⟨finite_product, product⟩ := finite_mul counted finite product_within
  rw [number] at product
  have sum_within : |rounded (worth ((k : Float) * h) * worth two)| < 2 ^ (1024 : ℤ) := by
    have whole : rounded (worth ((k : Float) * h) * worth two) = offset (worth h) k := by
      rw [two_is]
      exact congrArg (fun p => rounded (p * 2)) product
    rw [whole, double, abs_of_nonneg (by linarith), ← double]
    exact within
  obtain ⟨finite_sum, sum⟩ := finite_mul finite_product finite_two sum_within
  refine ⟨finite_sum, sum.trans ?_⟩
  rw [two_is]
  exact congrArg (fun p => rounded (p * 2)) product

theorem shift_reading (h : Float) (k : ℕ) :
    reading ((k : Float) * h * two) = ((stored k).mul (reading h)).mul (.number 2) := by
  have number : reading (two : Float) = .number 2 := by
    rw [reading_worth worth_two.1, worth_two.2]
  have product : reading ((k : Float) * h) = (stored k).mul (reading h) :=
    (reading_mul _ _).trans (congrArg (·.mul (reading h)) (reading_ofNat k))
  rw [reading_mul, product, number]

theorem shift_alike {h : Float} (flat : ∀ x, reading h = .number x → x = 0) (k : ℕ) :
    reading ((k : Float) * h * two) = .undefined ∨
      reading ((k : Float) * h * two) = reading h := by
  rw [shift_reading]
  have counted := Extended.of_number_le (Extended.zero_le_stored (Nat.cast_nonneg (α := ℚ) k))
  cases length : reading h with
  | undefined =>
    left
    cases stored (k : ℚ) <;> rfl
  | infinite s =>
    rcases counted with ⟨y, number, nonneg⟩ | number
    · rcases nonneg.eq_or_lt with zero | positive
      · left
        rw [number, ← zero]
        rfl
      · right
        rw [number, Extended.mul, if_neg positive.ne', decide_eq_false (not_lt.mpr nonneg)]
        cases s <;> simp [Extended.mul]
    · right
      rw [number]
      cases s <;> simp [Extended.mul]
  | number x =>
    obtain rfl := flat x length
    rcases counted with ⟨y, number, nonneg⟩ | number
    · right
      rw [number, Extended.mul, mul_zero, stored_zero, Extended.mul, zero_mul, stored_zero]
    · left
      rw [number]
      rfl

namespace Cell
variable {c : Cell Float} {count k : ℕ}

def slice (c : Cell Float) (count : ℕ) : Float := half (c.width / (count : Float))

def middle (c : Cell Float) (count k : ℕ) : Float :=
  c.lower + c.slice count + (k : Float) * c.slice count * two

theorem mem_midpoints (several : count ≠ 1) {x : Float} :
    x ∈ c.midpoints count ↔ ∃ k < count, c.middle count k = x := by
  rw [midpoints, if_neg several, List.mem_map]
  simp only [List.mem_range]
  rfl

theorem middle_alike (flat : ∀ x, reading (c.slice count) = .number x → x = 0)
    (defined : reading (c.middle count k) ≠ .undefined) :
    reading (c.middle count k) =
      (reading (c.lower + c.slice count)).add (reading (c.slice count)) := by
  have sum : reading (c.middle count k) = (reading (c.lower + c.slice count)).add
      (reading ((k : Float) * c.slice count * two)) := reading_add _ _
  rcases shift_alike flat k with none | same
  · rw [none, Extended.add_undefined] at sum
    exact absurd sum defined
  · rw [sum, same]

theorem slice_parts (some : 1 ≤ count) (finite : (c.slice count).isFinite = true)
    (nonzero : worth (c.slice count) ≠ 0) :
    c.width.isFinite = true ∧ (Float.ofNat count).isFinite = true ∧ worth c.width ≠ 0 := by
  obtain ⟨share_finite, value⟩ := worth_half finite
  have share : worth (c.width / (count : Float)) ≠ 0 := by
    intro zero
    rw [zero, zero_div, rounded_zero] at value
    exact nonzero value
  obtain ⟨width_finite, counted⟩ := finite_of_share share_finite share
  refine ⟨width_finite, counted, ?_⟩
  intro zero
  rw [(share_worth width_finite some counted).2, zero, zero_div, rounded_zero] at share
  exact share rfl

theorem middle_of_narrow (some : 1 ≤ count) (lower_finite : c.lower.isFinite = true)
    (width_finite : c.width.isFinite = true) (none : worth c.width = 0) :
    reading (c.middle count 0) = reading c.lower := by
  obtain ⟨share_finite, share⟩ := share_zero width_finite none some
  have length : reading (c.slice count) = .number 0 := by
    obtain ⟨slice_finite, value⟩ := half_finite share_finite
    rw [share, zero_div, rounded_zero] at value
    exact (reading_worth slice_finite).trans (congrArg Extended.number value)
  have value := reading_worth lower_finite
  have first : reading (c.lower + c.slice count) = reading c.lower := by
    rw [reading_add, length, value, Extended.add, add_zero]
    exact stored_number (worth_representable _) (worth_bounded lower_finite)
  have shift : reading (((0 : ℕ) : Float) * c.slice count * two) = .number 0 := by
    rw [shift_reading, length, Nat.cast_zero, stored_zero, Extended.mul, zero_mul, stored_zero,
      Extended.mul, zero_mul, stored_zero]
  refine (reading_add _ _).trans ?_
  rw [first, shift, value, Extended.add, add_zero]
  exact stored_number (worth_representable _) (worth_bounded lower_finite)

section
variable (some : 1 ≤ count) (width_finite : c.width.isFinite = true)
  (counted : (Float.ofNat count).isFinite = true)
include some width_finite counted

theorem slice_worth :
    (c.slice count).isFinite = true ∧ worth (c.slice count) = halfSlice (worth c.width) count :=
  halfSlice_worth width_finite some counted

/-- A finite middle is the middle in exact numbers, rounded at each operation. -/
theorem middle_worth (finite : (c.middle count k).isFinite = true) :
    worth (c.middle count k) = Framed.point (worth c.lower) (worth c.width) count k := by
  obtain ⟨first_finite, shift_finite, sum⟩ := worth_add finite
  obtain ⟨_, _, first⟩ := worth_add first_finite
  obtain ⟨product_finite, _, shift⟩ := worth_mul shift_finite
  obtain ⟨number_finite, _, product⟩ := worth_mul product_finite
  have length := (slice_worth some width_finite counted).2
  have number : worth (k : Float) = rounded k := worth_nat number_finite
  rw [worth_two.2, product, number] at shift
  refine sum.trans ?_
  rw [first, shift, length]
  rfl

theorem middle_finite (below : k < count) (lower_finite : c.lower.isFinite = true)
    (nonneg : 0 ≤ worth c.width)
    (first_within : |rounded (worth c.lower + halfSlice (worth c.width) count)| < 2 ^ (1024 : ℤ))
    (offset_within : offset (halfSlice (worth c.width) count) k < 2 ^ (1024 : ℤ))
    (point_within : |Framed.point (worth c.lower) (worth c.width) count k| < 2 ^ (1024 : ℤ)) :
    (c.middle count k).isFinite = true := by
  obtain ⟨slice_finite, length⟩ := slice_worth some width_finite counted
  rw [← length] at first_within offset_within
  obtain ⟨first_finite, first⟩ := finite_add lower_finite slice_finite first_within
  have slice_nonneg : 0 ≤ worth (c.slice count) := by
    rw [length]
    exact halfSlice_nonneg nonneg count
  obtain ⟨offset_finite, shift⟩ := offset_worth slice_finite
    (count_finite below.le counted).1 slice_nonneg offset_within
  refine (finite_add first_finite offset_finite ?_).1
  rw [first, shift, length]
  exact point_within

theorem lower_le_middle (below : k < count) (nonneg : 0 ≤ worth c.width) :
    (reading c.lower).height ≤ (reading (c.middle count k)).height := by
  obtain ⟨slice_finite, length⟩ := slice_worth some width_finite counted
  have slice_nonneg : 0 ≤ worth (c.slice count) := by
    rw [length]
    exact halfSlice_nonneg nonneg count
  have first : (Extended.number 0).height ≤ (reading (c.slice count)).height := by
    rw [reading_worth slice_finite]
    exact Extended.height_number_le.mpr slice_nonneg
  have shift : (Extended.number 0).height ≤
      (reading ((k : Float) * c.slice count * two)).height := by
    obtain ⟨number_finite, number⟩ := count_finite below.le counted
    rw [shift_reading, ← reading_ofNat, reading_worth number_finite, number,
      reading_worth slice_finite, Extended.mul_swap]
    apply Extended.zero_le_mul (by norm_num)
    exact Extended.zero_le_stored (mul_nonneg
      (le_rounded representable_zero (Nat.cast_nonneg k)) slice_nonneg)
  exact (height_le_add first).trans (height_le_add shift)

end
end Cell

end CurveSketch
