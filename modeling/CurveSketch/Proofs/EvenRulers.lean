import CurveSketch.Proofs.Clipping

/- The samples of all columns on an even ruler, in exact rationals. The cells are all of one width,
   so the middles of their slices are one grid, and the domain cuts both ends of it alike. Ticks
   between the outer ones make no difference. -/
namespace CurveSketch

def progression (start step : ℚ) (size : ℕ) : List ℚ :=
  (List.range size).map fun (j : ℕ) => start + (j : ℚ) * step

theorem progression_reverse (start step : ℚ) (size : ℕ) :
    (progression start step size).reverse =
      (progression start step size).map fun x => 2 * start + (size - 1) * step - x := by
  unfold progression
  rw [← List.map_reverse, List.range_eq_range', List.reverse_range', ← List.range_eq_range',
    List.map_map, List.map_map]
  refine List.map_congr_left fun j below => ?_
  rw [List.mem_range] at below
  have place : ((0 + size - 1 - j : ℕ) : ℚ) = size - 1 - j := by
    rw [Nat.zero_add, Nat.cast_sub (by omega), Nat.cast_sub (by omega)]
    norm_num
  simp only [Function.comp_apply, place]
  ring

theorem range_blocks (blocks size : ℕ) :
    (List.range blocks).flatMap (fun i => (List.range size).map (i * size + ·)) =
      List.range (blocks * size) := by
  induction blocks with
  | zero => simp
  | succ blocks ih =>
    rw [List.range_succ, List.flatMap_append, ih, List.flatMap_singleton, Nat.succ_mul,
      List.range_add]

namespace Scale

/-- From tick to tick the value changes by the same step per position. -/
def Even (s : Scale ℚ) (d : ℚ) : Prop :=
  s.toList.IsChain fun t u => (Segment.mk t u).step = d

/-- Middle number `m` of all slices of the columns, when every column is `d` wide. -/
def gridPoint (first d : ℚ) (count m : ℕ) : ℚ :=
  first + (2 * m + 1 - count) * (d / (2 * count))

def evenStart (first d : ℚ) (count : ℕ) : ℚ :=
  if count % 2 = 1 then first else first + d / (2 * count)

section
variable {s : Scale ℚ} {width count : ℕ} {d : ℚ}

theorem segment_step (even : s.Even d) (i : ℕ) : (s.segment i).step = d :=
  segment_of_chain even i

variable (laid : s.Laid (fun a b => a < b) width) (even : s.Even d)
include laid even

theorem even_positive : 0 < d := by
  rw [← segment_step even 0]
  exact step_positive laid.ascending laid.ordered 0

theorem center_even (i : ℕ) : (s.cell i).center = s.first.value + i * d := by
  induction i with
  | zero =>
    rw [center_zero laid]
    simp
  | succ i ih =>
    rw [center_next laid.ascending, ih, segment_step even]
    push_cast
    ring

theorem last_even : s.last.value = s.first.value + (width - 1) * d := by
  have last : (width : ℚ) = s.last.position + 1 := by exact_mod_cast laid.last.symm
  rw [← center_last laid laid.last, center_even laid even, last]
  ring

variable (some : 1 ≤ count)
include some

theorem midpoint_even (i k : ℕ) :
    s.midpoint count i k = gridPoint s.first.value d count (i * count + k) := by
  have positive : (0 : ℚ) < count := by exact_mod_cast some
  rw [midpoint, gridPoint, center_even laid even, segment_step even]
  push_cast
  field_simp
  ring

theorem gridPoint_inside_iff (m : ℕ) :
    (s.first.value ≤ gridPoint s.first.value d count m ∧
        gridPoint s.first.value d count m ≤ s.last.value) ↔
      count / 2 ≤ m ∧ m < count * (width - 1) + (count + 1) / 2 := by
  have positive : (0 : ℚ) < count := by exact_mod_cast some
  have slice : 0 < d / (2 * count) := div_pos (even_positive laid even) (by linarith)
  have two := two_columns laid
  have final : s.last.value = s.first.value + 2 * (count * (width - 1)) * (d / (2 * count)) := by
    rw [last_even laid even]
    field_simp
  have low : (0 : ℚ) ≤ 2 * m + 1 - count ↔ count ≤ 2 * m + 1 := by
    rw [← Nat.cast_le (α := ℚ)]
    push_cast
    constructor <;> intro <;> linarith
  have high : 2 * (m : ℚ) + 1 - count ≤ 2 * (count * (width - 1)) ↔
      2 * m + 1 ≤ 2 * (count * (width - 1)) + count := by
    rw [← Nat.cast_le (α := ℚ)]
    push_cast [Nat.cast_sub (by omega : 1 ≤ width)]
    constructor <;> intro <;> linarith
  rw [final, gridPoint, le_add_iff_nonneg_right, mul_nonneg_iff_of_pos_right slice, low,
    add_le_add_iff_left, mul_le_mul_iff_of_pos_right slice, high]
  omega

theorem samples_grid :
    (List.range width).flatMap (s.samples count) =
      (List.range' (count / 2) (count * (width - 1) + count % 2)).map
        (gridPoint s.first.value d count) := by
  have two := two_columns laid
  have columns : s.samples count = fun i =>
      (((List.range count).map (i * count + ·)).map (gridPoint s.first.value d count)).filter
        fun x => s.first.value ≤ x ∧ x ≤ s.last.value := by
    funext i
    rw [samples_midpoints laid some, List.map_map]
    congr 1
    exact List.map_congr_left fun k _ => midpoint_even laid even some i k
  have inside : count * (width - 1) + (count + 1) / 2 ≤ width * count := by
    have whole : width * count = count * (width - 1) + count := by
      rw [Nat.mul_comm, ← Nat.mul_succ, Nat.succ_eq_add_one, Nat.sub_add_cancel (by omega)]
    omega
  have size : count * (width - 1) + (count + 1) / 2 - count / 2 =
      count * (width - 1) + count % 2 := by omega
  rw [columns, ← List.filter_flatMap, ← List.map_flatMap, range_blocks, List.filter_map, ← size,
    range_filter_block inside]
  intro m _
  simpa using gridPoint_inside_iff laid even some m

theorem samples_even :
    (List.range width).flatMap (s.samples count) =
      progression (evenStart s.first.value d count) (d / count)
        (count * (width - 1) + count % 2) := by
  have positive : (0 : ℚ) < count := by exact_mod_cast some
  rw [samples_grid laid even some, List.range'_eq_map_range, List.map_map]
  refine List.map_congr_left fun j _ => ?_
  simp only [Function.comp_apply, gridPoint, evenStart]
  rcases Nat.even_or_odd' count with ⟨half, rfl | rfl⟩
  · rw [if_neg (by omega), show 2 * half / 2 = half by omega]
    push_cast at positive ⊢
    field_simp
    ring
  · rw [if_pos (by omega), show (2 * half + 1) / 2 = half by omega]
    push_cast at positive ⊢
    field_simp
    ring

theorem even_ends :
    2 * evenStart s.first.value d count +
        ((count * (width - 1) + count % 2 : ℕ) - 1) * (d / count) =
      s.first.value + s.last.value := by
  have positive : (0 : ℚ) < count := by exact_mod_cast some
  have two := two_columns laid
  have length : ((width - 1 : ℕ) : ℚ) = width - 1 := Nat.cast_pred (by omega)
  rw [last_even laid even, evenStart]
  rcases Nat.mod_two_eq_zero_or_one count with parity | parity
  · rw [if_neg (by omega), parity]
    push_cast [length]
    field_simp
    ring
  · rw [if_pos parity, parity]
    push_cast [length]
    field_simp
    ring

end
end Scale

/-- On an even ruler the samples of all columns together are one grid. It is as fine as `count`
    samples to a column make it, begins on the first tick or half a slice behind it, and lies
    evenly about the middle of the domain. -/
theorem even_samples_progress (r : Ruler ℚ) (count : ℕ) (d : ℚ) :
    ∀ across, r.scale = .ok across → 1 ≤ count → across.Even d →
      ∃ first last, r.values.head? = some first ∧ r.values.getLast? = some last ∧
        (List.range r.width).flatMap (across.samples count) =
          progression (if count % 2 = 1 then first else first + d / (2 * count)) (d / count)
            (count * (r.width - 1) + count % 2) ∧
        ((List.range r.width).flatMap (across.samples count)).reverse =
          ((List.range r.width).flatMap (across.samples count)).map
            fun x => first + last - x := by
  intro across accepted some even
  have laid : across.Laid (fun a b => a < b) r.width :=
    Sketch.across_laid (s := ⟨[], r⟩) accepted
  obtain ⟨head, final⟩ := Ruler.scale_ends accepted
  have grid := Scale.samples_even laid even some
  refine ⟨_, _, head, final, grid, ?_⟩
  rw [grid, progression_reverse, Scale.even_ends laid even some]

def metre : Ruler ℚ := ⟨"| | |".toList, [0, 2, 4]⟩

theorem metre_progresses : ∃ across, metre.scale = .ok across ∧ across.Even 1 ∧
    (List.range 5).flatMap (across.samples 2) = progression (1 / 4) (1 / 2) 8 ∧
    (List.range 5).flatMap (across.samples 3) = progression 0 (1 / 3) 13 := by
  have scale : metre.scale = .ok ⟨⟨0, 0⟩, ⟨2, 2⟩, [⟨4, 4⟩]⟩ := by decide +kernel
  have even : Scale.Even ⟨⟨0, 0⟩, ⟨2, 2⟩, [⟨4, 4⟩]⟩ 1 := by
    unfold Scale.Even
    decide +kernel
  obtain ⟨_, _, head, _, pairs, _⟩ := even_samples_progress metre 2 1 _ scale (by decide) even
  obtain ⟨_, _, head', _, triples, _⟩ := even_samples_progress metre 3 1 _ scale (by decide) even
  cases head
  cases head'
  have width : metre.width = 5 := rfl
  exact ⟨_, scale, even, pairs.trans (by norm_num [width]), triples.trans (by norm_num [width])⟩

end CurveSketch
