import CurveSketch.Proofs.Midpoints
import CurveSketch.Proofs.Separation

/- Finer sampling, in exact rationals. Every slice of a cell is cut into as many slices again. The
   middle of a slice is the middle of one of an odd number of parts, so all samples are kept; it is
   where two of an even number of parts meet, and then none is. What conforms at more samples
   conforms at some of them, but for a thick line, which asks that some outputs exist. -/
namespace CurveSketch

namespace Scale

section
variable {s : Scale ℚ} {count factor : ℕ}
  (ascending : s.toList.IsChain fun t u => t.position < u.position)
  (rising : s.toList.IsChain fun t u => t.value < u.value) (some : 1 ≤ count)
include ascending rising some

theorem midpoint_refined_iff (cut : 1 ≤ factor) (i j m : ℕ) :
    s.midpoint count i j = s.midpoint (factor * count) i m ↔
      factor * (2 * j + 1) = 2 * m + 1 := by
  have positive : (0 : ℚ) < count := by exact_mod_cast some
  have factor_positive : (0 : ℚ) < factor := by exact_mod_cast cut
  have slice := slice_positive ascending rising (Nat.mul_pos cut some) i
  have coarse : (s.segment i).step / (2 * count) =
      factor * ((s.segment i).step / (2 * ((factor * count : ℕ) : ℚ))) := by
    push_cast
    field_simp
  rw [midpoint, midpoint, coarse, sub_right_inj, ← mul_assoc, mul_left_inj' slice.ne',
    ← Nat.cast_inj (R := ℚ)]
  push_cast
  constructor <;> intro same <;> linarith

theorem samples_subset_of_odd (odd : Odd factor) (i : ℕ) :
    s.samples count i ⊆ s.samples (factor * count) i := by
  obtain ⟨half, rfl⟩ := odd
  have cut : 1 ≤ 2 * half + 1 := by omega
  intro x sampled
  obtain ⟨j, below, rfl, inside⟩ := (mem_samples ascending rising some i x).mp sampled
  have middle : (2 * half + 1) * (2 * j + 1) = 2 * ((2 * half + 1) * j + half) + 1 := by ring
  have last : (2 * half + 1) * j + half < (2 * half + 1) * count := by
    have whole := Nat.mul_le_mul_left (2 * half + 1) (Nat.succ_le_of_lt below)
    rw [Nat.mul_succ] at whole
    omega
  rw [mem_samples ascending rising (Nat.mul_pos cut some)]
  exact ⟨_, last, (midpoint_refined_iff ascending rising some cut i j _).mpr middle, inside⟩

theorem samples_sublist_of_odd (odd : Odd factor) (i : ℕ) :
    (s.samples count i).Sublist (s.samples (factor * count) i) := by
  have ascend := samples_ascend ascending rising some i
  have ascend' := samples_ascend ascending rising (Nat.mul_pos odd.pos some) i
  have kept := List.subperm_of_subset ascend.nodup
    (samples_subset_of_odd ascending rising some odd i)
  exact List.sublist_of_subperm_of_pairwise kept ascend ascend'

theorem samples_disjoint_of_even (cut : 1 ≤ factor) (even : 2 ∣ factor) (i : ℕ) :
    (s.samples count i).Disjoint (s.samples (factor * count) i) := by
  intro x sampled sampled'
  obtain ⟨j, _, here, _⟩ := (mem_samples ascending rising some i x).mp sampled
  obtain ⟨m, _, there, _⟩ :=
    (mem_samples ascending rising (Nat.mul_pos cut some) i x).mp sampled'
  have same := (midpoint_refined_iff ascending rising some cut i j m).mp (here.symm.trans there)
  have left : 2 ∣ factor * (2 * j + 1) := even.mul_right _
  omega

end
end Scale

section
variable {σ α : Type} [Scalar α] {f : α → Outcome α}

theorem column_holds_of_fewer {xs xs' : List α} {down : Scale α} {c : Column} (fewer : xs ⊆ xs')
    (thin : ∀ run, Spans c 'I' run → run.height < 3) (holds : ColumnHolds f xs' down c) :
    ColumnHolds f xs down c where
  returns := fun ink x sampled => holds.returns ink x (fewer sampled)
  exact := fun row spans x sampled => holds.exact row spans x (fewer sampled)
  range := fun run spans x sampled => holds.range run spans x (fewer sampled)
  envelope := by
    intro run spans tall
    have low := thin run spans
    unfold Run.height at low
    omega

theorem passes_of_fewer {s : Sketch α} {count more : ℕ} {start : σ} (some : 1 ≤ count)
    (fewer : ∀ across, s.across = .ok across → ∀ i,
      across.samples count i ⊆ across.samples more i)
    (thin : ∀ i < s.ruler.marks.length, ∀ run, Spans (s.column i) 'I' run → run.height < 3)
    (passes : ((Subject.steady f).check more s start).halt? = none) :
    ((Subject.steady f).check count s start).halt? = none := by
  rw [steady_check_passes_iff] at passes ⊢
  obtain ⟨⟨cs, accepted⟩, holds⟩ := passes
  obtain ⟨across, down, scales, _⟩ := (s.convert_ok_iff more cs).mp accepted
  obtain ⟨some', _⟩ := (s.scales_ok_iff more across down).mp scales
  refine ⟨?_, fun across down isAcross isDown i inside => ?_⟩
  · rcases s.same_outcome some some' with ⟨accepted', _⟩ | ⟨fault, _, refused⟩
    · exact accepted'
    · cases accepted.symm.trans refused
  · exact column_holds_of_fewer (fewer across isAcross i) (thin i inside)
      (holds across down isAcross isDown i inside)

end

/-- An odd multiple of a number of samples keeps every sample of every column, in their order, and an
    even multiple keeps none. So a function that conforms to a picture at an odd multiple of some
    number of samples conforms to it at that number, if no column shows a thick line. -/
theorem odd_multiple_only_adds (count factor : ℕ) (some : 1 ≤ count) :
    (∀ (r : Ruler ℚ) across, r.scale = .ok across → ∀ i,
      (Odd factor → (across.samples count i).Sublist (across.samples (factor * count) i)) ∧
      (1 ≤ factor → Even factor →
        (across.samples count i).Disjoint (across.samples (factor * count) i))) ∧
    (Odd factor → ∀ s : Sketch ℚ,
      (∀ i < s.ruler.marks.length, ∀ run, Spans (s.column i) 'I' run → run.height < 3) →
        ∀ (σ : Type) (f : ℚ → Outcome ℚ) (start : σ),
          ((Subject.steady f).check (factor * count) s start).halt? = none →
            ((Subject.steady f).check count s start).halt? = none) := by
  refine ⟨fun r across accepted i => ?_, fun odd s thin σ f start passes => ?_⟩
  · have laid := Ruler.scale_laid accepted
    exact ⟨fun odd => Scale.samples_sublist_of_odd laid.ascending laid.ordered some odd i,
      fun cut even =>
        Scale.samples_disjoint_of_even laid.ascending laid.ordered some cut even.two_dvd i⟩
  · refine passes_of_fewer some ?_ thin passes
    intro across isAcross i
    have laid := Sketch.across_laid isAcross
    exact Scale.samples_subset_of_odd laid.ascending laid.ordered some odd i

def terrace : Sketch ℚ :=
  ⟨[⟨some 2, "    iX".toList⟩, ⟨none, " iI i ".toList⟩, ⟨some 0, "XiI   ".toList⟩],
    ⟨"| |  |".toList, [0, 1, 10]⟩⟩

def terracing (x : ℚ) : Outcome ℚ :=
  .value (if x < 1 / 4 then 0 else if x < 3 then 1 else if x < 17 / 2 then 3 / 2 else 2)

theorem terrace_only_adds : ∃ across, terrace.ruler.scale = .ok across ∧
    across.samples 2 2 = [1 / 4, 7 / 4] ∧
    across.samples 6 2 = [1 / 4, 3 / 4, 5 / 4, 7 / 4, 9 / 4] ∧
    (across.samples 2 2).Sublist (across.samples 6 2) ∧
    (across.samples 2 2).Disjoint (across.samples 4 2) ∧
    ((Subject.steady terracing).check 6 terrace ()).halt? = none ∧
    ((Subject.steady terracing).check 2 terrace ()).halt? = none := by
  have scale : terrace.ruler.scale = .ok ⟨⟨0, 0⟩, ⟨1, 2⟩, [⟨10, 5⟩]⟩ := by decide +kernel
  have passes : ((Subject.steady terracing).check 6 terrace ()).halt? = none := by decide +kernel
  have lines : ∀ i < 6, ∀ run ∈ (terrace.column i).run? 'I', run.height < 3 := by decide +kernel
  have thin : ∀ i < terrace.ruler.marks.length, ∀ run, Spans (terrace.column i) 'I' run →
      run.height < 3 := by
    intro i inside run spans
    exact lines i inside run ((spans_iff_run _ _ (by decide) _).mp spans).2
  obtain ⟨samples, conforms⟩ := odd_multiple_only_adds 2 3 (by decide)
  obtain ⟨halves, _⟩ := odd_multiple_only_adds 2 2 (by decide)
  refine ⟨_, scale, by decide +kernel, by decide +kernel, ?_, ?_, passes, ?_⟩
  · exact (samples _ _ scale 2).1 (by decide)
  · exact (halves _ _ scale 2).2 (by decide) (by decide)
  · exact conforms (by decide) terrace thin Unit terracing () passes

end CurveSketch
