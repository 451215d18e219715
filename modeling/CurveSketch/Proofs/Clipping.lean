import CurveSketch.Proofs.RedundantTicks
import CurveSketch.Proofs.TwoSamples
import CurveSketch.Proofs.Weakening

/- The samples of one column, in exact rationals: which of its midpoints lie in the domain. They are
   neighbours, half of them at least. Only the outer columns and the columns of ticks lose any, and
   no function is ever called outside the domain. -/
namespace CurveSketch

theorem range_filter_block {n low high : ℕ} (inside : high ≤ n) {kept : ℕ → Bool}
    (between : ∀ k < n, kept k = true ↔ low ≤ k ∧ k < high) :
    (List.range n).filter kept = List.range' low (high - low) := by
  refine List.Pairwise.eq_of_mem_iff (List.pairwise_lt_range.filter _) List.pairwise_lt_range' ?_
  intro k
  rw [List.mem_filter, List.mem_range, List.mem_range'_1]
  constructor
  · intro passes
    obtain ⟨below, passes⟩ := passes
    have place := (between k below).mp passes
    omega
  · intro place
    exact ⟨by omega, (between k (by omega)).mpr (by omega)⟩

def Cell.sliceCenter (c : Cell ℚ) (count k : ℕ) : ℚ :=
  c.lower + (2 * k + 1) * c.width / (2 * count)

/-- What a column keeps of the middles of its slices: all that lie in the domain, which are `size`
    neighbours from number `low` on, and half of all at least. -/
structure Clipped (c : Cell ℚ) (count : ℕ) (first last : ℚ) (low size : ℕ) (xs : List ℚ) :
    Prop where
  ascending : xs.Pairwise (· < ·)
  domain : xs = ((List.range count).map (c.sliceCenter count)).filter
    fun x => first ≤ x ∧ x ≤ last
  block : xs = (List.range' low size).map (c.sliceCenter count)
  inside : low + size ≤ count
  half : (count + 1) / 2 ≤ size

namespace Scale

theorem segment_of_vacant {α : Type} {s : Scale α}
    (ascending : s.toList.IsChain fun t u => t.position < u.position) {i : ℕ}
    (vacant : s.Vacant (i + 1)) : s.segment (i + 1) = s.segment i := by
  rcases segment_turns ascending i with same | ⟨t, u, v, consecutive, here, _, _⟩
  · exact same
  · exact absurd here.symm (vacant.free u (consecutive.subset (by simp)))

section
variable {s : Scale ℚ} {width count : ℕ} (laid : s.Laid (fun a b => a < b) width)
  (some : 1 ≤ count)
include laid some

theorem midpoint_eq_sliceCenter (i k : ℕ) :
    s.midpoint count i k = (s.cell i).sliceCenter count k := by
  have positive : (0 : ℚ) < count := by exact_mod_cast some
  have step := step_positive laid.ascending laid.ordered i
  have lower : (s.cell i).lower = (s.cell i).center - (s.segment i).step / 2 := by
    rw [← abs_of_pos step]
    exact Segment.lower_rat _ i
  have whole : (s.cell i).width = (s.segment i).step := by
    rw [cell_width, abs_of_pos step]
  rw [midpoint, Cell.sliceCenter, whole, lower]
  field_simp
  ring

theorem midpoint_mono (i : ℕ) : Monotone (s.midpoint count i) :=
  monotone_nat_of_le_succ fun k =>
    (midpoint_lt laid.ascending laid.ordered some i (Nat.lt_succ_self k)).le

theorem midpoint_lt_center_iff (i k : ℕ) :
    s.midpoint count i k < (s.cell i).center ↔ 2 * k + 1 < count := by
  have slice := slice_positive laid.ascending laid.ordered some i
  have cast : (0 : ℚ) < count - 1 - 2 * k ↔ 2 * k + 1 < count := by
    rw [← Nat.cast_lt (α := ℚ)]
    push_cast
    constructor <;> intro <;> linarith
  rw [midpoint, sub_lt_self_iff, mul_pos_iff_of_pos_right slice, cast]

theorem center_lt_midpoint_iff (i k : ℕ) :
    (s.cell i).center < s.midpoint count i k ↔ count < 2 * k + 1 := by
  have slice := slice_positive laid.ascending laid.ordered some i
  have cast : (0 : ℚ) < 2 * k + 1 - count ↔ count < 2 * k + 1 := by
    rw [← Nat.cast_lt (α := ℚ)]
    push_cast
    constructor <;> intro <;> linarith
  have turned : s.midpoint count i k = (s.cell i).center +
      (2 * (k : ℚ) + 1 - count) * ((s.segment i).step / (2 * count)) := by
    rw [midpoint]
    ring
  rw [turned, lt_add_iff_pos_right, mul_pos_iff_of_pos_right slice, cast]

theorem cut_left (i : ℕ) :
    ∃ low ≤ count / 2, ∀ k, s.first.value ≤ s.midpoint count i k ↔ low ≤ k := by
  have center : (s.cell i).center ≤ s.midpoint count i (count / 2) := by
    rw [← not_lt, midpoint_lt_center_iff laid some]
    omega
  have reached : ∃ k, s.first.value ≤ s.midpoint count i k :=
    ⟨count / 2, (first_le_center laid i).trans center⟩
  refine ⟨Nat.find reached, Nat.find_min' reached ((first_le_center laid i).trans center), ?_⟩
  intro k
  constructor
  · intro inside
    exact Nat.find_min' reached inside
  · intro after
    exact (Nat.find_spec reached).trans (midpoint_mono laid some i after)

theorem uncut_right {i k : ℕ} (inner : i + 1 < width) (below : k < count) :
    s.midpoint count i k ≤ s.last.value :=
  (midpoint_le_last laid some below).trans
    ((last_midpoint_lt_center laid some i).le.trans (center_le_last laid inner))

theorem cut_first (k : ℕ) : s.first.value ≤ s.midpoint count 0 k ↔ count / 2 ≤ k := by
  rw [← center_zero laid, ← not_lt, midpoint_lt_center_iff laid some]
  omega

theorem cut_last {i : ℕ} (final : i + 1 = width) (k : ℕ) :
    s.midpoint count i k ≤ s.last.value ↔ k < (count + 1) / 2 := by
  rw [← center_last laid final, ← not_lt, center_lt_midpoint_iff laid some]
  omega

theorem uncut_of_same {i : ℕ} (same : s.segment (i + 1) = s.segment i) (k : ℕ) :
    s.first.value ≤ s.midpoint count (i + 1) k :=
  (first_le_center laid i).trans ((center_le_last_midpoint laid some i).trans
    (last_midpoint_lt_of_same laid some same k).le)

theorem clipped_of_numbers {i low high : ℕ} (inside : high ≤ count)
    (half : (count + 1) / 2 ≤ high - low)
    (between : ∀ k < count, (s.first.value ≤ s.midpoint count i k ∧
      s.midpoint count i k ≤ s.last.value) ↔ low ≤ k ∧ k < high) :
    Clipped (s.cell i) count s.first.value s.last.value low (high - low) (s.samples count i) := by
  have slices : s.midpoint count i = (s.cell i).sliceCenter count :=
    funext (midpoint_eq_sliceCenter laid some i)
  have domain := samples_midpoints laid some i
  refine ⟨samples_ascend laid.ascending laid.ordered some i, ?_, ?_, by omega, half⟩
  · rw [domain, slices]
  · rw [domain, List.filter_map, slices,
      range_filter_block inside fun k below => by simpa [slices] using between k below]

theorem clipped_left {i : ℕ} (inner : i + 1 < width) :
    ∃ low, Clipped (s.cell i) count s.first.value s.last.value low (count - low)
        (s.samples count i) ∧
      ∀ k, s.first.value ≤ s.midpoint count i k ↔ low ≤ k := by
  obtain ⟨low, few, cut⟩ := cut_left laid some i
  refine ⟨low, clipped_of_numbers laid some (le_refl count) (by omega) ?_, cut⟩
  intro k below
  have right := uncut_right laid some inner below
  rw [cut k]
  exact and_congr_right fun _ => iff_of_true right below

theorem clipped_right {i : ℕ} (final : i + 1 = width) :
    Clipped (s.cell i) count s.first.value s.last.value 0 ((count + 1) / 2)
      (s.samples count i) := by
  have two := two_columns laid
  obtain ⟨j, rfl⟩ : ∃ j, i = j + 1 := ⟨i - 1, by omega⟩
  have start := first_midpoint_sampled laid some (show j + 2 = width by omega)
  obtain ⟨_, _, _, domain⟩ :=
    (mem_samples laid.ascending laid.ordered some (j + 1) _).mp start
  have between : ∀ k < count, (s.first.value ≤ s.midpoint count (j + 1) k ∧
      s.midpoint count (j + 1) k ≤ s.last.value) ↔ 0 ≤ k ∧ k < (count + 1) / 2 := by
    intro k _
    have left := domain.1.trans (midpoint_mono laid some (j + 1) (Nat.zero_le k))
    rw [cut_last laid some final]
    exact and_congr_left fun _ => iff_of_true left (Nat.zero_le k)
  have column := clipped_of_numbers laid some (by omega) (by omega) between
  rwa [Nat.sub_zero] at column

theorem clipped {i : ℕ} (inside : i < width) :
    ∃ low size, Clipped (s.cell i) count s.first.value s.last.value low size
        (s.samples count i) ∧
      (i = 0 ∨ i + 1 = width → size = (count + 1) / 2) ∧
      (s.Vacant i → size = count) := by
  have last := laid.last
  rcases Nat.lt_or_ge (i + 1) width with inner | final
  · obtain ⟨low, column, cut⟩ := clipped_left laid some inner
    refine ⟨low, count - low, column, ?_, ?_⟩
    · intro outer
      have start : i = 0 := by omega
      subst start
      have least := (cut low).mpr (le_refl low)
      have half := (cut (count / 2)).mp ((cut_first laid some _).mpr (le_refl _))
      rw [cut_first laid some] at least
      omega
    · intro vacant
      have left := vacant.left
      obtain ⟨j, rfl⟩ : ∃ j, i = j + 1 := ⟨i - 1, by omega⟩
      have same := segment_of_vacant laid.ascending vacant
      have whole := (cut 0).mp (uncut_of_same laid some same 0)
      omega
  · refine ⟨0, (count + 1) / 2, clipped_right laid some (by omega), fun _ => rfl, ?_⟩
    intro vacant
    have right := vacant.right
    omega

end
end Scale

namespace Trial
variable {σ α : Type}

theorem andThen_calls_sublist {t : Trial σ α} {next : σ → Trial σ α} {xs ys : List α}
    (first : t.calls.Sublist xs) (later : (next t.state).calls.Sublist ys) :
    (t.andThen next).calls.Sublist (xs ++ ys) := by
  cases halts : t.halt? with
  | none =>
    rw [andThen_of_pass next halts]
    exact first.append later
  | some halt =>
    simp only [andThen, halts]
    exact first.trans (List.sublist_append_left xs ys)

variable [Scalar α]

theorem ofSamples_calls_sublist (rule : Rule α) (f : Probe σ α) (xs : List α) (s : σ) :
    (ofSamples rule f xs s).calls.Sublist xs := by
  induction xs generalizing s with
  | nil => exact List.nil_sublist []
  | cons x xs ih =>
    have first : (ofCall rule f x s).calls.Sublist [x] := by rw [ofCall_calls]
    exact andThen_calls_sublist first (ih _)

theorem calls_sublist (f : Probe σ α) (cs : List (Constraint α)) (s : σ) :
    (ofConstraints f cs s).calls.Sublist (cs.flatMap (·.samples)) := by
  induction cs generalizing s with
  | nil => exact List.nil_sublist []
  | cons c cs ih =>
    have column : (ofConstraint f c s).calls.Sublist c.samples := by
      rw [ofConstraint, judged_calls]
      exact ofSamples_calls_sublist c.rule f c.samples s
    rw [List.flatMap_cons]
    exact andThen_calls_sublist column (ih _)

end Trial

theorem Sketch.call_sampled {σ α : Type} [Scalar α] {s : Sketch α} {count : ℕ} {across : Scale α}
    (isAcross : s.across = .ok across) (f : Probe σ α) (start : σ) {x : α}
    (called : x ∈ (s.trial ⟨count⟩ f start).calls) :
    ∃ i < s.ruler.width, x ∈ across.samples count i := by
  cases result : (s.convert ⟨count⟩).result with
  | error fault => simp [trial_of_fault f start result] at called
  | ok cs =>
    rw [trial_of_constraints f start result] at called
    have sampled := (Trial.calls_sublist f cs start).subset called
    rw [List.flatMap_def, samples_of_accepted result isAcross, ← List.flatMap_def,
      List.mem_flatMap] at sampled
    obtain ⟨i, shown, member⟩ := sampled
    exact ⟨i, List.mem_range.mp (List.mem_filter.mp shown).1, member⟩

theorem Ruler.scale_ends {α : Type} [Scalar α] {r : Ruler α} {across : Scale α}
    (accepted : r.scale = .ok across) :
    r.values.head? = some across.first.value ∧ r.values.getLast? = some across.last.value := by
  obtain ⟨paired, slots⟩ := (Ruler.scale_ok_iff r across).mp accepted
  obtain ⟨ticks, _, _⟩ := (axis_scale_ok_iff _ _ _).mp slots
  have values : across.toList.map (·.value) = r.values := by
    rw [ticks, ticksFrom_values]
    exact pairMarks_values paired
  rw [← values, List.getLast?_map, Scale.last_mem]
  exact ⟨rfl, rfl⟩

/-- The samples of a column on an accepted ruler are the middles of its slices, without those
    outside the domain. They are neighbours in the cell, and half of them at least: just half in
    the two outer columns, all of them in a column without a tick. A single sample is the center.
    So no function is called outside the domain, and no column goes without samples. -/
theorem samples_clipped (r : Ruler ℚ) (count : ℕ) :
    ∀ across, r.scale = .ok across → 1 ≤ count →
      ∃ first last, r.values.head? = some first ∧ r.values.getLast? = some last ∧
        (∀ i < r.width, ∃ low size,
          Clipped (across.cell i) count first last low size (across.samples count i) ∧
          (i = 0 ∨ i + 1 = r.width → size = (count + 1) / 2) ∧
          (r.marks[i]? = some blank → size = count)) ∧
        (∀ i < r.width, across.samples 1 i = [(across.cell i).center]) ∧
        ∀ (rows : List (Row ℚ)) (σ : Type) (f : Probe σ ℚ) (start : σ),
          ∀ x ∈ ((Sketch.mk rows r).trial ⟨count⟩ f start).calls, first ≤ x ∧ x ≤ last := by
  intro across accepted some
  have laid : across.Laid (fun a b => a < b) r.width :=
    Sketch.across_laid (s := ⟨[], r⟩) accepted
  obtain ⟨head, final⟩ := Ruler.scale_ends accepted
  obtain ⟨_, slots⟩ := (Ruler.scale_ok_iff r across).mp accepted
  refine ⟨_, _, head, final, ?_, fun i inside => Scale.samples_once laid inside, ?_⟩
  · intro i inside
    obtain ⟨low, size, column, outer, whole⟩ := Scale.clipped laid some inside
    refine ⟨low, size, column, outer, ?_⟩
    intro empty
    exact whole (Scale.vacant_of_empty slots (pairMarks_blank empty r.values))
  · intro rows σ f start x called
    have isAcross : (Sketch.mk rows r).across = .ok across := accepted
    obtain ⟨i, _, member⟩ := Sketch.call_sampled isAcross f start called
    obtain ⟨_, _, _, domain⟩ := (Scale.mem_samples laid.ascending laid.ordered some i x).mp member
    exact domain

def kinked : Ruler ℚ := ⟨"| |  |".toList, [0, 1, 19]⟩

theorem kinked_clipped : ∃ across, kinked.scale = .ok across ∧
    across.samples 4 2 = [1 / 4, 7 / 4, 13 / 4] ∧
    (∃ low, Clipped (across.cell 2) 4 0 19 low 3 (across.samples 4 2)) ∧
    (across.samples 4 3).length = 4 := by
  have scale : kinked.scale = .ok ⟨⟨0, 0⟩, ⟨1, 2⟩, [⟨19, 5⟩]⟩ := by decide +kernel
  have second : Scale.samples ⟨⟨0, 0⟩, ⟨1, 2⟩, [⟨19, 5⟩]⟩ 4 2 =
      ([1 / 4, 7 / 4, 13 / 4] : List ℚ) := by decide +kernel
  obtain ⟨first, last, head, final, columns, _, _⟩ :=
    samples_clipped kinked 4 _ scale (by decide)
  cases head
  cases final
  obtain ⟨low, size, cut, _, _⟩ := columns 2 (by decide)
  obtain ⟨low', size', uncut, _, whole⟩ := columns 3 (by decide)
  have three : size = 3 := by
    have length := congrArg List.length (second.symm.trans cut.block)
    simpa using length.symm
  subst three
  refine ⟨_, scale, second, ⟨low, cut⟩, ?_⟩
  rw [uncut.block, whole rfl]
  simp

end CurveSketch
