import CurveSketch.Proofs.Midpoints

/- The samples of all columns together, in exact rationals. Each column takes its cell from the
   segment it stands in, and the column of a tick from the segment to its right. Where that
   segment is much steeper than the one to the left, the first samples of the tick's column fall
   among those of the columns before; everywhere else the samples ascend from column to column. -/
namespace CurveSketch

namespace Scale

/-- At every tick between two others the samples of its own column stay right of the column
    before. Sample `k` stands `count - 1 - 2 * k` half slices left of the tick; that is too far if
    it gets to the last sample of the column before, but not past the start of the axis. -/
def Uncrowded (s : Scale ℚ) (count : ℕ) : Prop :=
  ∀ a b c, [a, b, c] <:+: s.toList → ∀ k < count,
    ((count : ℚ) - 1 - 2 * k) * (Segment.mk b c).step < (count + 1) * (Segment.mk a b).step ∨
      2 * count * (b.value - s.first.value) < ((count : ℚ) - 1 - 2 * k) * (Segment.mk b c).step

section
variable {s : Scale ℚ} {width count : ℕ} (laid : s.Laid (fun a b => a < b) width)
  (some : 1 ≤ count)

include laid in
theorem center_zero : (s.cell 0).center = s.first.value := by
  rw [← laid.first]
  exact congrArg Prod.fst (domain_rat laid.ascending)

include laid in
theorem center_last {i : ℕ} (final : i + 1 = width) : (s.cell i).center = s.last.value := by
  have last := laid.last
  rw [show i = s.last.position by omega]
  exact congrArg Prod.snd (domain_rat laid.ascending)

include laid in
theorem first_le_center (i : ℕ) : s.first.value ≤ (s.cell i).center := by
  rw [← center_zero laid]
  exact (center_strictMono laid.ascending laid.ordered).monotone (Nat.zero_le i)

include laid in
theorem center_le_last {i : ℕ} (inside : i < width) : (s.cell i).center ≤ s.last.value := by
  have last := laid.last
  rw [← center_last laid last]
  exact (center_strictMono laid.ascending laid.ordered).monotone (by omega)

include laid in
theorem segments_at_tick {a b c : Tick ℚ} (consecutive : [a, b, c] <:+: s.toList) :
    a.position < b.position ∧ b.position < c.position ∧
      0 < (Segment.mk a b).step ∧ 0 < (Segment.mk b c).step := by
  have apart := laid.ascending.infix consecutive
  have rises := laid.ordered.infix consecutive
  simp only [List.isChain_cons_cons, List.isChain_singleton, and_true] at apart rises
  exact ⟨apart.1, apart.2, Segment.step_positive apart.1 rises.1,
    Segment.step_positive apart.2 rises.2⟩

include laid some

theorem last_midpoint (i : ℕ) : s.midpoint count i (count - 1) =
    (s.cell (i + 1)).center - (count + 1) * ((s.segment i).step / (2 * count)) := by
  have positive : (0 : ℚ) < count := by exact_mod_cast some
  rw [midpoint, center_next laid.ascending, Nat.cast_sub some]
  field_simp
  push_cast
  ring

theorem midpoint_le_last {i k : ℕ} (below : k < count) :
    s.midpoint count i k ≤ s.midpoint count i (count - 1) := by
  rcases Nat.lt_or_eq_of_le (Nat.le_sub_one_of_lt below) with before | same
  · exact (midpoint_lt laid.ascending laid.ordered some i before).le
  · rw [same]

theorem center_le_last_midpoint (i : ℕ) :
    (s.cell i).center ≤ s.midpoint count i (count - 1) := by
  have slice := slice_positive laid.ascending laid.ordered some i
  have cast : (1 : ℚ) ≤ count := by exact_mod_cast some
  have reach := mul_nonneg (sub_nonneg.mpr cast) slice.le
  rw [midpoint, Nat.cast_sub some]
  push_cast
  linarith

theorem last_midpoint_lt_center (i : ℕ) :
    s.midpoint count i (count - 1) < (s.cell (i + 1)).center := by
  have slice := slice_positive laid.ascending laid.ordered some i
  have reach : 0 < ((count : ℚ) + 1) * ((s.segment i).step / (2 * count)) :=
    mul_pos (by positivity) slice
  rw [last_midpoint laid some]
  linarith

theorem last_midpoint_sampled {i : ℕ} (inside : i + 1 < width) :
    s.midpoint count i (count - 1) ∈ s.samples count i := by
  rw [mem_samples laid.ascending laid.ordered some]
  exact ⟨count - 1, by omega, rfl,
    (first_le_center laid i).trans (center_le_last_midpoint laid some i),
    (last_midpoint_lt_center laid some i).le.trans (center_le_last laid inside)⟩

theorem sample_le_last {i : ℕ} {x : ℚ} (sample : x ∈ s.samples count i) :
    x ≤ s.midpoint count i (count - 1) := by
  obtain ⟨k, below, rfl, _⟩ := (mem_samples laid.ascending laid.ordered some i x).mp sample
  exact midpoint_le_last laid some below

theorem last_midpoint_lt_of_same {i : ℕ} (same : s.segment (i + 1) = s.segment i) (k : ℕ) :
    s.midpoint count i (count - 1) < s.midpoint count (i + 1) k := by
  have slice := slice_positive laid.ascending laid.ordered some i
  have nonneg := mul_nonneg (Nat.cast_nonneg k : (0 : ℚ) ≤ k) slice.le
  rw [last_midpoint laid some, midpoint, same]
  linarith

theorem first_midpoint_sampled {i : ℕ} (final : i + 2 = width) :
    s.midpoint count (i + 1) 0 ∈ s.samples count (i + 1) := by
  have last := laid.last
  have same : s.segment (i + 1) = s.segment i := by
    rcases segment_turns laid.ascending i with same | ⟨t, u, v, _, here, _, right⟩
    · exact same
    · have stop := segment_last laid.ascending
      have apart := segment_of_chain laid.ascending (i + 1)
      rw [show s.last.position = i + 1 by omega, right] at stop
      rw [right] at apart
      simp only at stop apart
      rw [stop] at apart
      omega
  have high : s.midpoint count (i + 1) 0 ≤ (s.cell (i + 1)).center := by
    have slice := slice_positive laid.ascending laid.ordered some (i + 1)
    have cast : (1 : ℚ) ≤ count := by exact_mod_cast some
    have reach := mul_nonneg (sub_nonneg.mpr cast) slice.le
    rw [midpoint]
    push_cast
    linarith
  have low : (s.cell i).center ≤ s.midpoint count (i + 1) 0 :=
    (center_le_last_midpoint laid some i).trans (last_midpoint_lt_of_same laid some same 0).le
  rw [mem_samples laid.ascending laid.ordered some]
  exact ⟨0, some, rfl, (first_le_center laid i).trans low,
    high.trans (center_le_last laid (by omega))⟩

theorem samples_inhabited {i : ℕ} (inside : i < width) : s.samples count i ≠ [] := by
  rcases Nat.lt_or_ge (i + 1) width with before | final
  · exact List.ne_nil_of_mem (last_midpoint_sampled laid some before)
  · have last := laid.last
    have apart := segment_of_chain laid.ascending s.last.position
    rw [segment_last laid.ascending] at apart
    obtain ⟨j, rfl⟩ : ∃ j, i = j + 1 := ⟨i - 1, by omega⟩
    exact List.ne_nil_of_mem (first_midpoint_sampled laid some (by omega))

theorem border_midpoints {i : ℕ} {t u v : Tick ℚ} (here : i + 1 = u.position)
    (left : s.segment i = ⟨t, u⟩) (right : s.segment (i + 1) = ⟨u, v⟩) (k : ℕ) :
    (s.midpoint count i (count - 1) < s.midpoint count (i + 1) k ↔
        ((count : ℚ) - 1 - 2 * k) * (Segment.mk u v).step <
          (count + 1) * (Segment.mk t u).step) ∧
      (s.midpoint count (i + 1) k < s.first.value ↔
        2 * count * (u.value - s.first.value) <
          ((count : ℚ) - 1 - 2 * k) * (Segment.mk u v).step) := by
  have positive : (0 : ℚ) < 2 * count := by
    have cast : (0 : ℚ) < count := by exact_mod_cast some
    linarith
  have center : (s.cell (i + 1)).center = u.value := by
    change (s.segment (i + 1)).value (i + 1) = u.value
    rw [right, here]
    exact Segment.value_start ⟨u, v⟩
  rw [last_midpoint laid some, midpoint, center, left, right]
  refine ⟨?_, ?_⟩
  · rw [sub_lt_sub_iff_left, ← mul_div_assoc, ← mul_div_assoc, div_lt_div_iff_of_pos_right positive]
  · rw [sub_lt_comm, ← mul_div_assoc, lt_div_iff₀ positive, mul_comm]

theorem uncrowded_iff_borders :
    s.Uncrowded count ↔ ∀ i, i + 1 < width → ∀ y ∈ s.samples count (i + 1),
      s.midpoint count i (count - 1) < y := by
  have ascending := laid.ascending
  constructor
  · intro uncrowded i inside y sample
    obtain ⟨k, below, rfl, low, _⟩ :=
      (mem_samples ascending laid.ordered some (i + 1) y).mp sample
    rcases segment_turns ascending i with same | ⟨t, u, v, consecutive, here, left, right⟩
    · exact last_midpoint_lt_of_same laid some same k
    · obtain ⟨apart, clipped⟩ := border_midpoints laid some here left right k
      rcases uncrowded t u v consecutive k below with near | far
      · exact apart.mpr near
      · exact absurd low (not_le.mpr (clipped.mpr far))
  · intro borders a b c consecutive k below
    obtain ⟨i, here, left, right⟩ := segments_at_turn ascending consecutive
    have inside : i + 1 < width := by
      obtain ⟨_, after, _⟩ := segments_at_tick laid consecutive
      have stop : (s.segment (i + 1)).stop.position ≤ s.last.position := bracket_stop_le ascending _
      have last := laid.last
      rw [right] at stop
      simp only at stop
      omega
    obtain ⟨apart, clipped⟩ := border_midpoints laid some here left right k
    by_contra crowded
    rw [not_or, ← apart, ← clipped, not_lt, not_lt] at crowded
    obtain ⟨behind, low⟩ := crowded
    have high : s.midpoint count (i + 1) k ≤ s.last.value :=
      behind.trans ((last_midpoint_lt_center laid some i).le.trans (center_le_last laid inside))
    have sample := (mem_samples ascending laid.ordered some (i + 1) _).mpr
      ⟨k, below, rfl, low, high⟩
    exact absurd (borders i inside _ sample) (not_lt.mpr behind)

theorem columns_apart (uncrowded : s.Uncrowded count) {i j : ℕ} (before : i < j)
    (inside : j < width) :
    ∀ x ∈ s.samples count i, ∀ y ∈ s.samples count j, x < y := by
  have borders := (uncrowded_iff_borders laid some).mp uncrowded
  intro x here y there
  have left := sample_le_last laid some here
  suffices s.midpoint count i (count - 1) < y from lt_of_le_of_lt left this
  clear left here
  -- the columns between are crossed one at a time, by way of their last midpoints
  induction j, before using Nat.le_induction generalizing y with
  | base => exact borders i inside y there
  | succ j further ih =>
    have between := last_midpoint_sampled laid some inside
    have reached := ih (by omega) (s.midpoint count j (count - 1)) between
    exact reached.trans (borders j inside y there)

theorem ascend_iff_uncrowded :
    ((List.range width).flatMap (s.samples count)).Pairwise (· < ·) ↔ s.Uncrowded count := by
  rw [List.pairwise_flatMap]
  constructor
  · intro ordered
    rw [uncrowded_iff_borders laid some]
    intro i inside y sample
    have neighbours := List.pairwise_iff_getElem.mp ordered.2 i (i + 1) (by simp; omega)
      (by simp; omega) (by omega)
    simp only [List.getElem_range] at neighbours
    exact neighbours _ (last_midpoint_sampled laid some inside) y sample
  · intro uncrowded
    refine ⟨fun i _ => samples_ascend laid.ascending laid.ordered some i, ?_⟩
    refine List.pairwise_lt_range.imp_of_mem ?_
    intro i j _ member before
    exact columns_apart laid some uncrowded before (List.mem_range.mp member)

omit some in
theorem uncrowded_of_steps (gentle : ∀ a b c, [a, b, c] <:+: s.toList →
      ((count : ℚ) - 1) * (Segment.mk b c).step < (count + 1) * (Segment.mk a b).step) :
    s.Uncrowded count := by
  intro a b c consecutive k _
  obtain ⟨_, _, _, step⟩ := segments_at_tick laid consecutive
  have fewer := mul_nonneg (Nat.cast_nonneg k : (0 : ℚ) ≤ k) step.le
  left
  linarith [gentle a b c consecutive]

theorem uncrowded_of_single_or_falling (tame : count = 1 ∨ ∀ a b c, [a, b, c] <:+: s.toList →
      (Segment.mk b c).step ≤ (Segment.mk a b).step) : s.Uncrowded count := by
  refine uncrowded_of_steps laid fun a b c consecutive => ?_
  obtain ⟨_, _, step, _⟩ := segments_at_tick laid consecutive
  rcases tame with single | falling
  · subst single
    push_cast
    linarith
  · have cast : (1 : ℚ) ≤ count := by exact_mod_cast some
    have scaled := mul_le_mul_of_nonneg_left (falling a b c consecutive) (sub_nonneg.mpr cast)
    linarith

end
end Scale

/-- The samples of all columns of a ruler ascend exactly when no tick is crowded. No tick is
    crowded where the steps of neighbouring segments stay in proportion, and never by one sample
    to a column or on an even ruler. -/
theorem columns_ascend_iff_uncrowded (r : Ruler ℚ) (count : ℕ) :
    ∀ across, r.scale = .ok across → 1 ≤ count →
      (∀ i < r.width, across.samples count i ≠ [] ∧
        (across.samples count i).Pairwise (· < ·)) ∧
      (((List.range r.width).flatMap (across.samples count)).Pairwise (· < ·) ↔
        across.Uncrowded count) ∧
      (across.Uncrowded count → ∀ i j, i < j → j < r.width →
        ∀ x ∈ across.samples count i, ∀ y ∈ across.samples count j, x < y) ∧
      ((∀ a b c, [a, b, c] <:+: across.toList →
        ((count : ℚ) - 1) * (Segment.mk b c).step < (count + 1) * (Segment.mk a b).step) →
          across.Uncrowded count) ∧
      ((count = 1 ∨ ∀ a b c, [a, b, c] <:+: across.toList →
        (Segment.mk b c).step ≤ (Segment.mk a b).step) → across.Uncrowded count) := by
  intro across accepted some
  have laid : across.Laid (fun a b => a < b) r.width :=
    Sketch.across_laid (s := ⟨[], r⟩) accepted
  refine ⟨?_, Scale.ascend_iff_uncrowded laid some, ?_, Scale.uncrowded_of_steps laid,
    Scale.uncrowded_of_single_or_falling laid some⟩
  · intro i inside
    exact ⟨Scale.samples_inhabited laid some inside,
      Scale.samples_ascend laid.ascending laid.ordered some i⟩
  · intro uncrowded i j before inside
    exact Scale.columns_apart laid some uncrowded before inside

def widening : Ruler ℚ := ⟨['|', '|', '|'], [0, 1, 6]⟩

theorem widening_scale : widening.scale = .ok ⟨⟨0, 0⟩, ⟨1, 1⟩, [⟨6, 2⟩]⟩ := by
  decide +kernel

theorem widening_columns_share : ∃ across, widening.scale = .ok across ∧
    ¬ ((List.range widening.width).flatMap (across.samples 4)).Pairwise (· < ·) ∧
    3 / 8 ∈ across.samples 4 0 ∧ 3 / 8 ∈ across.samples 4 1 :=
  ⟨_, widening_scale, by decide +kernel, by decide +kernel, by decide +kernel⟩

theorem widening_uncrowded_by_three : ∃ across, widening.scale = .ok across ∧
    across.Uncrowded 3 ∧
    ∀ x ∈ across.samples 3 0, ∀ y ∈ across.samples 3 1, x < y := by
  obtain ⟨_, ascend, apart, _⟩ :=
    columns_ascend_iff_uncrowded widening 3 _ widening_scale (by decide)
  have uncrowded := ascend.mp (by decide +kernel)
  exact ⟨_, widening_scale, uncrowded, apart uncrowded 0 1 (by decide) (by decide)⟩

end CurveSketch
