import CurveSketch.Proofs.Climbing
import CurveSketch.Proofs.DoubleMidpoints
import CurveSketch.Proofs.Overhang

/- Which columns of a scale in doubles are sampled: those with a midpoint that is not left of the
   domain and a midpoint that is not right of it. Midpoints may overflow, underflow and be lost
   altogether, but they do not step over the domain. -/
namespace CurveSketch

theorem large_limit : 2 ^ 60 * quantum ≤ 2 ^ (1024 : ℤ) := by
  have unit : (1 : ℚ) ≤ 2 ^ (1024 : ℤ) := one_le_zpow₀ (by norm_num) (by norm_num)
  exact quantum_le_one.trans unit

theorem half_bounded {t : ℚ} (within : |t| < 2 ^ (1024 : ℤ)) :
    2 * rounded (t / 2) ≤ 2 ^ (1024 : ℤ) := by
  have half := power_halved 1024
  have rep : Representable (2 ^ (1024 - 1 : ℤ)) :=
    ⟨1, 1024 - 1, by norm_num, by norm_num, by rw [Int.cast_one, one_mul]⟩
  have bound : t / 2 ≤ 2 ^ (1024 - 1 : ℤ) := by
    rw [div_le_iff₀ zero_lt_two, ← half]
    exact (le_abs_self t).trans within.le
  rw [half, mul_comm]
  exact mul_le_mul_of_nonneg_right (rounded_le rep bound) zero_le_two

theorem abs_between {x y z limit : ℚ} (low : x ≤ y) (high : y ≤ z) (left : |x| < limit)
    (right : |z| < limit) : |y| < limit := by
  rw [abs_lt] at left right ⊢
  exact ⟨left.1.trans_le low, high.trans_lt right.2⟩

namespace Segment
variable {g : Segment Float} {i : ℕ}

section
variable (ascending : g.start.position < g.stop.position) (stop_few : g.stop.position ≤ 2 ^ 53)
  (rises : g.start.value < g.stop.value)
include ascending stop_few rises

theorem zero_le_step : (Extended.number 0).height ≤ (reading g.step).height := by
  obtain ⟨finite, number⟩ :=
    worth_small_nat (n := g.stop.position - g.start.position) (by omega)
  have positive : (0 : ℚ) < (g.stop.position - g.start.position : ℕ) := by
    exact_mod_cast (by omega : 0 < g.stop.position - g.start.position)
  have quotient := reading_div (g.stop.value - g.start.value) (reading_worth finite)
    (by rw [number]; exact positive.ne')
  rw [number] at quotient
  have value : reading g.step = (reading (g.stop.value - g.start.value)).divide
    (g.stop.position - g.start.position : ℕ) := quotient
  rw [value]
  exact Extended.zero_le_divide (zero_le_sub rises) positive

theorem rising_step (finite : g.step.isFinite = true) : 0 ≤ worth g.step := by
  have high := zero_le_step ascending stop_few rises
  rwa [reading_worth finite, Extended.height_number_le] at high

theorem start_le_center (inside : g.start.position ≤ i) (few : i ≤ 2 ^ 53)
    (defined : g.start.position < i ∨ g.step.isFinite = true) :
    (reading g.start.value).height ≤ (reading (g.cell i).center).height := by
  refine height_le_add (a := g.start.value) ?_
  have high := zero_le_step ascending stop_few rises
  rw [reading_mul, rows_reading inside few]
  rcases defined with later | finite
  · have positive : (0 : ℚ) < (i - g.start.position : ℕ) := by
      exact_mod_cast (by omega : 0 < i - g.start.position)
    exact Extended.zero_le_mul positive high
  · rw [reading_worth finite] at high ⊢
    exact Extended.zero_le_stored
      (mul_nonneg (Nat.cast_nonneg _) (Extended.height_number_le.mp high))

end

theorem step_of_center (few : g.start.position ≤ 2 ^ 53)
    (defined : reading (g.cell g.start.position).center ≠ .undefined) :
    g.step.isFinite = true := by
  rw [center_reading le_rfl few, Nat.sub_self, Nat.cast_zero] at defined
  cases step : reading g.step with
  | number t => exact (finite_of_reading step).1
  | undefined =>
    rw [step] at defined
    exact absurd (Extended.add_undefined _) defined
  | infinite s =>
    rw [step] at defined
    exact absurd (Extended.add_undefined _) defined

/-- The cell of a position behind the start does not reach below the start. -/
theorem start_le_lower (centered : g.Centered i) (measured : g.Measured i)
    (rising : 0 ≤ worth g.step) (later : g.start.position < i) :
    worth g.start.value ≤ worth (g.cell i).lower := by
  have first := along_mono (worth g.start.value) rising
    (by omega : 1 ≤ i - g.start.position)
  rw [← centered.center, along_one _ (worth_representable _)] at first
  have low := measured.lower
  rw [abs_of_nonneg rising] at low
  rw [low]
  exact (start_le_low (worth_representable _) (worth_representable _) rising).trans
    (rounded_mono (by linarith))

end Segment

namespace Scale
variable {across : Scale Float} {width count i : ℕ}

section
variable (laid : across.Laid (fun a b => a < b) width) (few : width ≤ 2 ^ 53)
include laid

theorem segment_start_le (i : ℕ) : (across.segment i).start.position ≤ i :=
  bracket_start_le i (by rw [laid.first]; omega)

theorem segment_ascends (i : ℕ) :
    (across.segment i).start.position < (across.segment i).stop.position :=
  segment_of_chain laid.ascending i

theorem segment_climbs (i : ℕ) :
    (across.segment i).start.value < (across.segment i).stop.value :=
  segment_of_chain (r := fun t u => t.value < u.value) laid.ordered i

theorem segment_stop_le (i : ℕ) : (across.segment i).stop.position < width := by
  have furthest : (across.segment i).stop.position ≤ across.last.position :=
    bracket_stop_le laid.ascending i
  have last := laid.last
  omega

theorem first_step (defined : reading across.domain.1 ≠ .undefined) :
    (across.segment 0).step.isFinite = true := by
  have start : (across.segment 0).start.position = 0 := by
    have inside := segment_start_le laid 0
    omega
  rw [domain, laid.first] at defined
  refine Segment.step_of_center (by omega) ?_
  rwa [start]

include few

theorem rising_step (finite : (across.segment i).step.isFinite = true) :
    0 ≤ worth (across.segment i).step := by
  have stop := segment_stop_le laid i
  exact Segment.rising_step (segment_ascends laid i) (by omega) (segment_climbs laid i) finite

theorem start_le_center (inside : i < width)
    (defined : (across.segment i).start.position < i ∨ (across.segment i).step.isFinite = true) :
    (reading (across.segment i).start.value).height ≤ (reading (across.cell i).center).height := by
  have stop := segment_stop_le laid i
  exact Segment.start_le_center (segment_ascends laid i) (by omega) (segment_climbs laid i)
    (segment_start_le laid i) (by omega) defined

theorem centered (inside : i < width) (finite : (across.cell i).center.isFinite = true) :
    (across.segment i).Centered i := by
  have stop := segment_stop_le laid i
  exact Segment.centered_of_finite (segment_start_le laid i) (by omega) (segment_ascends laid i)
    (by omega) finite

theorem domain_start_reading (step : (across.segment 0).step.isFinite = true) :
    reading across.domain.1 = reading (across.segment 0).start.value ∧
      across.domain.1.isFinite = true := by
  have last := laid.last
  have same : across.domain.1 = (across.cell 0).center := by
    rw [domain, laid.first]
  have start : (across.segment 0).start.position = 0 := by
    have inside := segment_start_le laid 0
    omega
  have stop := segment_stop_le laid 0
  obtain ⟨start_finite, _, _⟩ :=
    Segment.step_worth (segment_ascends laid 0) (by omega) step
  have value := reading_worth start_finite
  have center : reading (across.cell 0).center = .number (worth (across.segment 0).start.value) := by
    refine (Segment.center_reading start.le (by omega)).trans ?_
    rw [start, Nat.sub_zero, Nat.cast_zero, value, reading_worth step, Extended.mul, zero_mul,
      stored_zero, Extended.add, add_zero]
    exact stored_number (worth_representable _) (worth_bounded start_finite)
  rw [same]
  exact ⟨center.trans value.symm, (finite_of_reading center).1⟩

theorem domain_start (defined : reading across.domain.1 ≠ .undefined) :
    reading across.domain.1 = reading (across.segment 0).start.value ∧
      across.domain.1.isFinite = true :=
  domain_start_reading laid few (first_step laid defined)

theorem domain_start_iff :
    across.domain.1.isNaN = false ↔ (across.segment 0).step.isFinite = true := by
  rw [not_nan_iff]
  refine ⟨first_step laid, fun step => ?_⟩
  have finite := (domain_start_reading laid few step).2
  rw [reading_worth finite]
  nofun

theorem left_le_start (defined : reading across.domain.1 ≠ .undefined) (i : ℕ) :
    (reading across.domain.1).height ≤ (reading (across.segment i).start.value).height := by
  rw [(domain_start laid few defined).1]
  rcases segment_rises (fun t => (reading t.value).height) laid.ascending (Nat.zero_le i)
    (fun k _ => height_of_lt (segment_climbs laid k)) with same | ⟨_, above⟩
  · rw [same]
  · exact (height_of_lt (segment_climbs laid 0)).trans above

theorem start_le_right :
    (reading (across.segment across.last.position).start.value).height ≤
      (reading across.domain.2).height := by
  have last := laid.last
  have before := segment_ascends laid across.last.position
  rw [segment_last laid.ascending] at before
  exact start_le_center laid few (by omega) (Or.inl before)

theorem domain_stop (defined : reading across.domain.1 ≠ .undefined) :
    across.domain.2.isFinite = true ∨ reading across.domain.2 = .infinite false := by
  have high := (left_le_start laid few defined _).trans (start_le_right laid few)
  rw [reading_worth (domain_start laid few defined).2] at high
  rcases Extended.of_number_le high with ⟨z, value, _⟩ | endless
  · exact Or.inl (finite_of_reading value).1
  · exact Or.inr endless

theorem stop_le_right (inside : i < width) :
    across.segment across.last.position = across.segment i ∨
      i < (across.segment i).stop.position ∧
        (reading (across.segment i).stop.value).height ≤ (reading across.domain.2).height := by
  have last := laid.last
  rcases segment_rises (fun t => (reading t.value).height) laid.ascending
    (by omega : i ≤ across.last.position)
    (fun k _ => height_of_lt (segment_climbs laid k)) with same | ⟨before, above⟩
  · exact Or.inl same
  · exact Or.inr ⟨before, above.trans (start_le_right laid few)⟩

theorem right_along (same : across.segment across.last.position = across.segment i)
    (finite : across.domain.2.isFinite = true) :
    worth across.domain.2 = along (worth (across.segment i).start.value)
      (worth (across.segment i).step)
      (across.last.position - (across.segment i).start.position) := by
  have last := laid.last
  have center := (centered laid few (by omega : across.last.position < width) finite).center
  rw [same] at center
  have right : across.domain.2 = ((across.segment i).cell across.last.position).center := by
    rw [domain, ← same]
    rfl
  rw [right, center]

theorem reaches_right (step_finite : (across.segment i).step.isFinite = true) (inside : i < width)
    (finite : across.domain.2.isFinite = true) :
    Reaches (worth (across.segment i).start.value) (worth (across.segment i).step)
      (rounded (worth (across.segment i).step / 2)) (worth across.domain.2) := by
  have last := laid.last
  have stop := segment_stop_le laid i
  have ascends := segment_ascends laid i
  have rising := rising_step laid few step_finite
  obtain ⟨start_finite, stop_finite, step⟩ := Segment.step_worth ascends (by omega) step_finite
  rcases stop_le_right laid few inside with same | ⟨_, above⟩
  · left
    have behind := segment_ascends laid across.last.position
    rw [segment_last laid.ascending, same] at behind
    rw [right_along laid few same finite, ← along_one _ (worth_representable _)]
    exact along_mono _ rising (by omega)
  · have rises := (lt_iff_worth start_finite stop_finite).mp (segment_climbs laid i)
    rw [reading_worth stop_finite, reading_worth finite, Extended.height_number_le] at above
    exact (reaches_stop (worth_representable _) (worth_representable _) rises (by omega) step).mono
      above

/-- The cell has a midpoint that is not left of the domain and one that is not right of it. -/
def Meets (across : Scale Float) (count i : ℕ) : Prop :=
  (∃ x ∈ (across.cell i).midpoints count, across.domain.1 ≤ x) ∧
    ∃ x ∈ (across.cell i).midpoints count, x ≤ across.domain.2

/-- A cell over which midpoints are spread. -/
structure Spread (across : Scale Float) (count i : ℕ) : Prop where
  centered : (across.segment i).Centered i
  measured : (across.segment i).Measured i
  counted : (Float.ofNat count).isFinite = true
  framed : Framed (worth (across.cell i).center) (rounded (worth (across.segment i).step / 2))
    (worth (across.cell i).lower) (worth (across.cell i).upper) (worth (across.cell i).width)

theorem spread_of_width (inside : i < width) (counted : (Float.ofNat count).isFinite = true)
    (finite : (across.cell i).width.isFinite = true) (wide : worth (across.cell i).width ≠ 0) :
    across.Spread count i := by
  have measured : (across.segment i).Measured i := Segment.measured_of_finite finite
  have center := (worth_sub measured.lower_finite).1
  have centered := centered laid few inside center
  exact ⟨centered, measured, counted,
    Segment.framed_of_measured measured (rising_step laid few centered.step_finite) wide⟩

end

namespace Spread
variable (spread : across.Spread count i)
include spread

theorem lower_finite : (across.cell i).lower.isFinite = true := spread.measured.lower_finite

theorem width_finite : (across.cell i).width.isFinite = true := spread.measured.width_finite

variable (some : 1 ≤ count) {k : ℕ}
include some

theorem middle_worth (finite : ((across.cell i).middle count k).isFinite = true) :
    worth ((across.cell i).middle count k) =
      Framed.point (worth (across.cell i).lower) (worth (across.cell i).width) count k :=
  Cell.middle_worth some spread.width_finite spread.counted finite

theorem lower_le_middle (below : k < count) :
    (reading (across.cell i).lower).height ≤ (reading ((across.cell i).middle count k)).height :=
  Cell.lower_le_middle some spread.width_finite spread.counted below spread.framed.width_nonneg

theorem middle_reading (below : k < count) :
    reading ((across.cell i).middle count k) =
        .number (Framed.point (worth (across.cell i).lower) (worth (across.cell i).width) count k) ∨
      reading ((across.cell i).middle count k) = .infinite false := by
  have high := spread.lower_le_middle some below
  rw [reading_worth spread.lower_finite] at high
  rcases Extended.of_number_le high with ⟨y, value, _⟩ | value
  · left
    obtain ⟨finite, _⟩ := finite_of_reading value
    rw [reading_worth finite, spread.middle_worth some finite]
  · exact Or.inr value

theorem middle_finite (below : k < count) {right : ℚ} (within : |right| < 2 ^ (1024 : ℤ))
    (point_le : Framed.point (worth (across.cell i).lower) (worth (across.cell i).width) count k ≤
      right)
    (offset_within : offset (halfSlice (worth (across.cell i).width) count) k < 2 ^ (1024 : ℤ)) :
    ((across.cell i).middle count k).isFinite = true := by
  have low_first := spread.framed.low_le_first count
  have first_point := spread.framed.first_le_point count k
  have lower_within := worth_bounded spread.lower_finite
  exact Cell.middle_finite some spread.width_finite spread.counted below spread.lower_finite
    spread.framed.width_nonneg
    (abs_between low_first (first_point.trans point_le) lower_within within) offset_within
    (abs_between (low_first.trans first_point) point_le lower_within within)

theorem middle_le (below : k < count) {x : Float} (finite : x.isFinite = true)
    (point_le : Framed.point (worth (across.cell i).lower) (worth (across.cell i).width) count k ≤
      worth x)
    (offset_within : offset (halfSlice (worth (across.cell i).width) count) k < 2 ^ (1024 : ℤ)) :
    (across.cell i).middle count k ≤ x := by
  have point_finite := spread.middle_finite some below (worth_bounded finite) point_le offset_within
  rwa [le_iff_worth point_finite finite, spread.middle_worth some point_finite]

end Spread

section
variable (laid : across.Laid (fun a b => a < b) width) (few : width ≤ 2 ^ 53)
  (spread : across.Spread count i) (inside : i < width) (many : 2 ≤ count)
  (defined : reading across.domain.1 ≠ .undefined)
include laid few spread many defined

theorem left_le_middle (later : (across.segment i).start.position < i) {k : ℕ} (below : k < count) :
    across.domain.1 ≤ (across.cell i).middle count k := by
  rw [le_iff_height (domain_start laid few defined).2]
  have rising := rising_step laid few spread.centered.step_finite
  have above : (reading (across.segment i).start.value).height ≤
      (reading (across.cell i).lower).height := by
    rw [reading_worth spread.centered.start_finite, reading_worth spread.lower_finite,
      Extended.height_number_le]
    exact Segment.start_le_lower spread.centered spread.measured rising later
  exact (left_le_start laid few defined i).trans
    (above.trans (spread.lower_le_middle (by omega) below))

include inside

/-- At the start of its segment the first midpoint that is not left of the domain is in it. -/
theorem middle_le_right (starts : (across.segment i).start.position = i)
    (finite : across.domain.2.isFinite = true) {k : ℕ} (below : k < count)
    (least : ∀ j < k, ¬ across.domain.1 ≤ (across.cell i).middle count j) :
    (across.cell i).middle count k ≤ across.domain.2 := by
  have framed := spread.framed
  have left_finite := (domain_start laid few defined).2
  have center : worth (across.cell i).center = worth (across.segment i).start.value := by
    refine spread.centered.center.trans ?_
    rw [starts, Nat.sub_self, along_zero (worth_representable _)]
  have left_le : worth across.domain.1 ≤ worth (across.cell i).center := by
    have high := left_le_start laid few defined i
    rwa [reading_worth left_finite, reading_worth spread.centered.start_finite,
      Extended.height_number_le, ← center] at high
  have reaches := reaches_right laid few spread.centered.step_finite inside finite
  rw [← center] at reaches
  cases k with
  | zero =>
    have first := framed.first_le_right (worth_representable _) (worth_representable _) reaches many
    exact spread.middle_le (by omega) below finite first
      (by rw [offset_zero]; exact power_pos 1024)
  | succ j =>
    have before : Framed.point (worth (across.cell i).lower) (worth (across.cell i).width) count j <
        worth across.domain.1 := by
      rw [← not_le]
      intro after
      apply least j (by omega)
      rcases spread.middle_reading (by omega) (by omega : j < count) with value | value
      · exact (le_iff_of_readings (reading_worth left_finite) value).mpr after
      · exact le_infinite value defined
    have short := Framed.before_center (worth_representable _) left_le before
    have next := framed.next_le_right (worth_representable _) (worth_representable _) reaches below
      short
    have bounded := framed.next_bounded below short large_limit
      (worth_bounded spread.centered.center_finite)
      ((le_abs_self _).trans_lt (worth_bounded spread.width_finite))
      (half_bounded (worth_bounded spread.centered.step_finite))
    exact spread.middle_le (by omega) below finite next bounded

end

theorem sampled_of_midpoint {x : Float} (member : x ∈ (across.cell i).midpoints count)
    (after : across.domain.1 ≤ x) (before : x ≤ across.domain.2) : across.samples count i ≠ [] :=
  List.ne_nil_of_mem (List.mem_filter.mpr ⟨member, decide_eq_true ⟨after, before⟩⟩)

theorem meets_of_sampled (sampled : across.samples count i ≠ []) : across.Meets count i := by
  obtain ⟨x, member⟩ := List.exists_mem_of_ne_nil _ sampled
  obtain ⟨midpoint, inDomain⟩ := List.mem_filter.mp member
  obtain ⟨after, before⟩ := of_decide_eq_true inDomain
  exact ⟨⟨x, midpoint, after⟩, x, midpoint, before⟩

theorem sampled_of_flat (several : count ≠ 1)
    (flat : ∀ x, reading ((across.cell i).slice count) = .number x → x = 0)
    (meets : across.Meets count i) : across.samples count i ≠ [] := by
  obtain ⟨⟨x, left, after⟩, y, right, before⟩ := meets
  obtain ⟨k, _, rfl⟩ := (Cell.mem_midpoints several).mp left
  obtain ⟨l, _, rfl⟩ := (Cell.mem_midpoints several).mp right
  refine sampled_of_midpoint left after ?_
  rw [le_iff_compare] at before ⊢
  rwa [Cell.middle_alike flat (number_of_le after).2,
    ← Cell.middle_alike flat (number_of_le (le_iff_compare.mpr before)).1]

section
variable (laid : across.Laid (fun a b => a < b) width) (few : width ≤ 2 ^ 53)
  (inside : i < width) (some : 1 ≤ count)
include laid few inside

theorem sampled_of_spread (spread : across.Spread count i) (many : 2 ≤ count)
    (meets : across.Meets count i) : across.samples count i ≠ [] := by
  have several : count ≠ 1 := by omega
  obtain ⟨⟨x, left, after⟩, y, right, before⟩ := meets
  have defined := (number_of_le after).1
  obtain ⟨k, below, rfl⟩ := (Cell.mem_midpoints several).mp left
  obtain ⟨l, below', rfl⟩ := (Cell.mem_midpoints several).mp right
  rcases (segment_start_le laid i).lt_or_eq with later | starts
  · exact sampled_of_midpoint right (left_le_middle laid few spread many defined later below') before
  · rcases domain_stop laid few defined with finite | endless
    · have found : ∃ k, k < count ∧ across.domain.1 ≤ (across.cell i).middle count k :=
        ⟨k, below, after⟩
      obtain ⟨first_below, first_after⟩ := Nat.find_spec found
      refine sampled_of_midpoint ((Cell.mem_midpoints several).mpr ⟨_, first_below, rfl⟩)
        first_after ?_
      refine middle_le_right laid few spread inside many defined starts finite first_below
        fun j sooner below_left => ?_
      exact Nat.find_min found sooner ⟨sooner.trans first_below, below_left⟩
    · exact sampled_of_midpoint left after (le_infinite endless (number_of_le after).2)

include some

/-- A column is sampled exactly when its midpoints do not all miss the domain on the same side. -/
theorem sampled_iff : across.samples count i ≠ [] ↔ across.Meets count i := by
  refine ⟨meets_of_sampled, fun meets => ?_⟩
  by_cases one : count = 1
  · obtain ⟨⟨x, left, after⟩, y, right, before⟩ := meets
    have center := left
    rw [Cell.midpoints, if_pos one, List.mem_singleton] at center right
    exact sampled_of_midpoint left after (by rwa [center, ← right])
  by_cases flat : ∀ x, reading ((across.cell i).slice count) = .number x → x = 0
  · exact sampled_of_flat one flat meets
  · push Not at flat
    obtain ⟨x, length, nonzero⟩ := flat
    obtain ⟨slice_finite, rfl⟩ := finite_of_reading length
    obtain ⟨width_finite, counted, wide⟩ := Cell.slice_parts some slice_finite nonzero
    exact sampled_of_spread laid few inside
      (spread_of_width laid few inside counted width_finite wide) (by omega) meets

end

/-- The cell can be cut: there is one sample only, or the width is finite and is cut into normal
    numbers, if it is not zero. -/
def Divisible (across : Scale Float) (count i : ℕ) : Prop :=
  count = 1 ∨ (across.cell i).width.isFinite = true ∧
    ((across.cell i).width ≤ 0 ∨ finest ≤ (across.cell i).width / (count : Float))

/-- The center does not pass the end of its segment: it is finite, and the step is normal. -/
def Settled (across : Scale Float) (i : ℕ) : Prop :=
  (across.cell i).center.isFinite = true ∧ leastNormal ≤ (across.segment i).step

section
variable (laid : across.Laid (fun a b => a < b) width)
include laid

theorem center_le_right (few : width ≤ 2 ^ 50) (inside : i < width)
    (defined : reading across.domain.1 ≠ .undefined) (settled : across.Settled i) :
    (across.cell i).center ≤ across.domain.2 := by
  have few' : width ≤ 2 ^ 53 := by omega
  have last := laid.last
  obtain ⟨finite, normal⟩ := settled
  have here := centered laid few' inside finite
  rcases domain_stop laid few' defined with right_finite | endless
  · rw [le_iff_worth finite right_finite]
    have center : worth (across.cell i).center = along (worth (across.segment i).start.value)
        (worth (across.segment i).step) (i - (across.segment i).start.position) := here.center
    rcases stop_le_right laid few' inside with same | ⟨before, above⟩
    · rw [center, right_along laid few' same right_finite]
      exact along_mono _ (rising_step laid few' here.step_finite) (by omega)
    · rw [le_iff_worth leastNormal_worth.1 here.step_finite, leastNormal_worth.2] at normal
      have stop := segment_stop_le laid i
      have start := segment_start_le laid i
      have climb := Segment.climb_of_step (segment_ascends laid i) (by omega)
        (segment_climbs laid i) here.step_finite normal
      rw [reading_worth here.stop_finite, reading_worth right_finite,
        Extended.height_number_le] at above
      rw [center]
      exact (climb.along_le (by omega)).trans above
  · exact le_infinite endless (by rw [reading_worth finite]; nofun)

section
variable (few : width ≤ 2 ^ 53) (inside : i < width)
  (defined : reading across.domain.1 ≠ .undefined) (before : (across.cell i).center ≤ across.domain.2)
include few inside defined before

theorem left_le_center : across.domain.1 ≤ (across.cell i).center := by
  have center := (number_of_le before).1
  have step : (across.segment i).start.position < i ∨ (across.segment i).step.isFinite = true := by
    rcases (segment_start_le laid i).lt_or_eq with later | starts
    · exact Or.inl later
    · right
      refine Segment.step_of_center (by omega) ?_
      rwa [starts]
  rw [le_iff_height (domain_start laid few defined).2]
  exact (left_le_start laid few defined i).trans (start_le_center laid few inside step)

theorem meets_of_narrow (several : count ≠ 1) (some : 1 ≤ count)
    (finite : (across.cell i).width.isFinite = true) (narrow : (across.cell i).width ≤ 0) :
    across.Meets count i := by
  have measured : (across.segment i).Measured i := Segment.measured_of_finite finite
  have lower_finite : (across.cell i).lower.isFinite = true := measured.lower_finite
  have center_finite : (across.cell i).center.isFinite = true := (worth_sub lower_finite).1
  obtain ⟨zero_finite, zero⟩ := worth_small_nat (n := 0) (by norm_num)
  have below : worth (across.cell i).width ≤ 0 := by
    have order := (le_iff_worth finite zero_finite).mp narrow
    rwa [zero, Nat.cast_zero] at order
  obtain ⟨none, lower⟩ : worth (across.cell i).width = 0 ∧
      worth (across.cell i).lower = worth (across.cell i).center :=
    Segment.lower_of_narrow measured below
  have same : reading ((across.cell i).middle count 0) = reading (across.cell i).center := by
    rw [Cell.middle_of_narrow some lower_finite finite none, reading_worth lower_finite, lower,
      reading_worth center_finite]
  have member : (across.cell i).middle count 0 ∈ (across.cell i).midpoints count :=
    (Cell.mem_midpoints several).mpr ⟨0, by omega, rfl⟩
  have after := left_le_center laid few inside defined before
  rw [le_iff_compare, ← same] at after before
  exact ⟨⟨_, member, le_iff_compare.mpr after⟩, _, member, le_iff_compare.mpr before⟩

theorem meets_of_normal (many : 2 ≤ count) (finite : (across.cell i).width.isFinite = true)
    (normal : finest ≤ (across.cell i).width / (count : Float)) : across.Meets count i := by
  have several : count ≠ 1 := by omega
  obtain ⟨counted, fine⟩ := finest_share finite (by omega) normal
  have wide : worth (across.cell i).width ≠ 0 := by
    intro none
    rw [none, zero_div, rounded_zero] at fine
    linarith [quantum_pos]
  have spread := spread_of_width laid few inside counted finite wide
  have center_finite : (across.cell i).center.isFinite = true := spread.centered.center_finite
  have first := spread.framed.first_le_center many fine
  have last := spread.framed.le_last many fine
  have after := left_le_center laid few inside defined before
  constructor
  · refine ⟨_, (Cell.mem_midpoints several).mpr ⟨count - 1, by omega, rfl⟩, ?_⟩
    rw [le_iff_height (domain_start laid few defined).2] at after ⊢
    refine after.trans ?_
    rw [reading_worth center_finite]
    rcases spread.middle_reading (by omega) (by omega : count - 1 < count) with value | value
    · rw [value]
      exact Extended.height_number_le.mpr last
    · rw [value]
      exact Extended.number_le_infinite _
  · refine ⟨_, (Cell.mem_midpoints several).mpr ⟨0, by omega, rfl⟩, ?_⟩
    have below : 0 < count := by omega
    have start : offset (halfSlice (worth (across.cell i).width) count) 0 < 2 ^ (1024 : ℤ) := by
      rw [offset_zero]
      exact power_pos 1024
    have middle_finite := spread.middle_finite (by omega) below (worth_bounded center_finite) first
      start
    have left := spread.middle_le (by omega) below center_finite first start
    rw [le_iff_height middle_finite] at left ⊢
    rw [le_iff_height center_finite] at before
    exact left.trans before

theorem sampled_of_divisible (some : 1 ≤ count) (divisible : across.Divisible count i) :
    across.samples count i ≠ [] := by
  rw [sampled_iff laid few inside some]
  by_cases one : count = 1
  · have member : (across.cell i).center ∈ (across.cell i).midpoints count := by
      rw [Cell.midpoints, if_pos one]
      exact List.mem_singleton_self _
    exact ⟨⟨_, member, left_le_center laid few inside defined before⟩, _, member, before⟩
  · obtain ⟨finite, narrow | normal⟩ := divisible.resolve_left one
    · exact meets_of_narrow laid few inside defined before one some finite narrow
    · exact meets_of_normal laid few inside defined before (by omega) finite normal

end

theorem unsampled_of_endless (few : width ≤ 2 ^ 53) (several : count ≠ 1)
    (right_finite : across.domain.2.isFinite = true)
    (endless : (across.cell i).width.isFinite = false) : across.samples count i = [] := by
  apply List.filter_eq_nil_iff.mpr
  intro x member inDomain
  obtain ⟨after, before⟩ : across.domain.1 ≤ x ∧ x ≤ across.domain.2 := of_decide_eq_true inDomain
  have left_finite := (domain_start laid few (number_of_le after).1).2
  have finite := finite_between left_finite right_finite after before
  obtain ⟨k, _, rfl⟩ := (Cell.mem_midpoints several).mp member
  obtain ⟨first_finite, _, _⟩ := worth_add finite
  obtain ⟨_, slice_finite, _⟩ := worth_add first_finite
  have width_finite := finite_of_div (worth_half slice_finite).1
  rw [endless] at width_finite
  cases width_finite

end
end Scale
end CurveSketch
