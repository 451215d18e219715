import CurveSketch.Proofs.Clipping

/- The middles of equal slices, in exact rationals. Cuts divide a cell into slices of one width; the
   points at which it is sampled are the middles of the slices, one slice apart from each other and
   mirrored in the center. A single slice has the center for its middle. -/
namespace CurveSketch

namespace Cell

def spread {α : Type} [Scalar α] (c : Cell α) (count : Nat) : List α :=
  let reach := half (c.width / (count : α))
  (List.range count).map fun (k : Nat) => c.lower + reach + (k : α) * reach * two

def cut (c : Cell ℚ) (count k : ℕ) : ℚ := c.lower + k * (c.width / count)

/-- The ends are in order and the center is half way between them. -/
structure Balanced (c : Cell ℚ) : Prop where
  ordered : c.lower ≤ c.upper
  middle : c.center = (c.lower + c.upper) / 2

theorem midpoints_eq_spread {α : Type} [Scalar α] (c : Cell α) {count : Nat}
    (several : count ≠ 1) : c.midpoints count = c.spread count := if_neg several

theorem cut_first (c : Cell ℚ) (count : ℕ) : c.cut count 0 = c.lower := by
  simp [cut]

theorem cut_next (c : Cell ℚ) (count k : ℕ) :
    c.cut count (k + 1) - c.cut count k = c.width / count := by
  unfold cut
  push_cast
  ring

theorem cut_mono {c : Cell ℚ} (ordered : c.lower ≤ c.upper) (count : ℕ) :
    Monotone (c.cut count) := by
  refine monotone_nat_of_le_succ fun k => ?_
  have next := c.cut_next count k
  have slice : 0 ≤ c.width / count := div_nonneg (sub_nonneg.mpr ordered) (Nat.cast_nonneg count)
  linarith

section
variable (c : Cell ℚ) {count : ℕ} (counted : 1 ≤ count)
include counted

theorem cut_end : c.cut count count = c.upper := by
  have positive : (count : ℚ) ≠ 0 := by
    rw [Nat.cast_ne_zero]
    omega
  rw [cut, mul_div_cancel₀ _ positive, width, add_sub_cancel]

theorem sliceCenter_between (k : ℕ) :
    c.sliceCenter count k = (c.cut count k + c.cut count (k + 1)) / 2 := by
  have positive : (0 : ℚ) < count := by exact_mod_cast counted
  unfold sliceCenter cut
  push_cast
  field_simp
  ring

theorem sliceCenter_next (k : ℕ) :
    c.sliceCenter count (k + 1) - c.sliceCenter count k = c.width / count := by
  rw [c.sliceCenter_between counted, c.sliceCenter_between counted]
  have first := c.cut_next count k
  have second := c.cut_next count (k + 1)
  linarith

theorem sliceCenter_mirrored {k : ℕ} (below : k < count) :
    c.sliceCenter count k + c.sliceCenter count (count - 1 - k) = c.lower + c.upper := by
  have positive : (0 : ℚ) < count := by exact_mod_cast counted
  have place : ((count - 1 - k : ℕ) : ℚ) = count - 1 - k := by
    rw [Nat.cast_sub (by omega), Nat.cast_sub counted, Nat.cast_one]
  unfold sliceCenter
  rw [place, width]
  field_simp
  ring

theorem spread_eq : c.spread count = (List.range count).map (c.sliceCenter count) := by
  have positive : (0 : ℚ) < count := by exact_mod_cast counted
  refine List.map_congr_left fun k _ => ?_
  change c.lower + half _ + (k : ℚ) * half _ * 2 = _
  rw [half_rat, sliceCenter]
  field_simp
  ring

variable {c} (balanced : c.Balanced)
include balanced

theorem midpoints_spread : c.midpoints count = c.spread count := by
  rcases eq_or_ne count 1 with rfl | several
  · have alone := c.sliceCenter_mirrored counted (Nat.lt_succ_self 0)
    have center : c.center = c.sliceCenter 1 0 := by
      rw [balanced.middle]
      linarith
    rw [c.spread_eq counted, List.range_one, List.map_singleton, ← center]
    rfl
  · exact c.midpoints_eq_spread several

theorem midpoints_eq : c.midpoints count = (List.range count).map (c.sliceCenter count) := by
  rw [midpoints_spread counted balanced, c.spread_eq counted]

theorem midpoint_at {k : ℕ} (below : k < count) :
    (c.midpoints count)[k]? = some (c.sliceCenter count k) := by
  simp [midpoints_eq counted balanced, below]

theorem midpoint_inside {x : ℚ} (member : x ∈ c.midpoints count) : c.Contains x := by
  rw [midpoints_eq counted balanced, List.mem_map] at member
  obtain ⟨k, place, rfl⟩ := member
  rw [List.mem_range] at place
  have mono := cut_mono balanced.ordered count
  have left : c.lower ≤ c.cut count k := by
    rw [← c.cut_first count]
    exact mono (Nat.zero_le k)
  have right : c.cut count (k + 1) ≤ c.upper := by
    rw [← c.cut_end counted]
    exact mono place
  have step := mono (Nat.le_succ k)
  rw [c.sliceCenter_between counted]
  constructor <;> linarith

theorem midpoints_spaced :
    (c.midpoints count).IsChain fun x y => y - x = (c.upper - c.lower) / count := by
  rw [midpoints_eq counted balanced, List.isChain_map, List.isChain_range]
  intro k _
  exact c.sliceCenter_next counted k

theorem midpoints_ascend (wide : c.lower < c.upper) : (c.midpoints count).Pairwise (· < ·) := by
  have positive : (0 : ℚ) < count := by exact_mod_cast counted
  have slice : 0 < (c.upper - c.lower) / count := div_pos (sub_pos.mpr wide) positive
  rw [← List.isChain_iff_pairwise]
  refine (midpoints_spaced counted balanced).imp fun x y apart => ?_
  linarith

end
end Cell

/-- The cell is cut into equal slices from end to end, and every slice is sampled in its middle, by
    the formula and by the shortcut alike. The samples lie in the cell, one slice apart; they ascend
    unless the cell is a single point; and the first and the last, the second and the last but one
    and so on have the center half way between them. -/
theorem equal_slices_halved (c : Cell ℚ) (count : ℕ) (balanced : c.Balanced)
    (counted : 1 ≤ count) :
    (c.cut count 0 = c.lower ∧ c.cut count count = c.upper ∧
      ∀ k, c.cut count (k + 1) - c.cut count k = (c.upper - c.lower) / count) ∧
    ((c.midpoints count).length = count ∧
      ∀ k < count, (c.midpoints count)[k]? =
        some ((c.cut count k + c.cut count (k + 1)) / 2)) ∧
    (c.midpoints count = c.spread count ∧ c.midpoints 1 = [c.center] ∧ c.spread 1 = [c.center]) ∧
    (∀ x ∈ c.midpoints count, c.lower ≤ x ∧ x ≤ c.upper) ∧
    (c.midpoints count).IsChain (fun x y => y - x = (c.upper - c.lower) / count) ∧
    (c.lower < c.upper → (c.midpoints count).Pairwise (· < ·)) ∧
    (c.lower = c.upper → c.midpoints count = List.replicate count c.center) ∧
    ∀ k < count, ∃ x y, (c.midpoints count)[k]? = some x ∧
      (c.midpoints count)[count - 1 - k]? = some y ∧ x + y = 2 * c.center := by
  have length : (c.midpoints count).length = count := by
    simp [Cell.midpoints_eq counted balanced]
  refine ⟨⟨c.cut_first count, c.cut_end counted, c.cut_next count⟩, ⟨length, ?_⟩,
    ⟨Cell.midpoints_spread counted balanced, rfl, ?_⟩,
    fun x => Cell.midpoint_inside counted balanced,
    Cell.midpoints_spaced counted balanced, Cell.midpoints_ascend counted balanced, ?_, ?_⟩
  · intro k below
    rw [Cell.midpoint_at counted balanced below, c.sliceCenter_between counted]
  · exact (Cell.midpoints_spread (le_refl 1) balanced).symm
  · intro point
    refine List.eq_replicate_iff.mpr ⟨length, fun x member => ?_⟩
    obtain ⟨low, high⟩ := Cell.midpoint_inside counted balanced member
    have middle := balanced.middle
    linarith
  · intro k below
    refine ⟨_, _, Cell.midpoint_at counted balanced below,
      Cell.midpoint_at counted balanced (by omega), ?_⟩
    rw [c.sliceCenter_mirrored counted below, balanced.middle]
    ring

def plank : Cell ℚ := ⟨-1, 2, 1 / 2⟩

def peg : Cell ℚ := ⟨2, 2, 2⟩

theorem plank_halved : plank.Balanced ∧ plank.midpoints 4 = [-5 / 8, 1 / 8, 7 / 8, 13 / 8] ∧
    plank.midpoints 4 = plank.spread 4 ∧ plank.spread 1 = [1 / 2] ∧
    (∀ x ∈ plank.midpoints 4, -1 ≤ x ∧ x ≤ 2) ∧ (plank.midpoints 4).Pairwise (· < ·) ∧
    (∃ x y, (plank.midpoints 4)[1]? = some x ∧ (plank.midpoints 4)[2]? = some y ∧ x + y = 1) ∧
    peg.Balanced ∧ peg.midpoints 3 = [2, 2, 2] := by
  have balanced : plank.Balanced := ⟨by decide, by decide +kernel⟩
  have pointed : peg.Balanced := ⟨by decide, by decide +kernel⟩
  have points : plank.midpoints 4 = [-5 / 8, 1 / 8, 7 / 8, 13 / 8] := by decide +kernel
  obtain ⟨_, _, ⟨general, _, alone⟩, inside, _, ascend, _, mirrored⟩ :=
    equal_slices_halved plank 4 balanced (by decide)
  obtain ⟨_, _, _, _, _, _, same, _⟩ := equal_slices_halved peg 3 pointed (by decide)
  refine ⟨balanced, points, general, alone, inside, ascend (by decide), ?_, pointed, same rfl⟩
  obtain ⟨x, y, first, second, sum⟩ := mirrored 1 (by decide)
  exact ⟨x, y, first, second, sum.trans (by decide +kernel)⟩

end CurveSketch
