import CurveSketch.Proofs.CheckForms
import CurveSketch.Proofs.Crowding
import CurveSketch.Proofs.TallerBands

/- How many samples a line takes. The inner band of a thick line is proper, so no output lies on
   both sides of it, and a thick line in a column that is sampled once is never filled. With one
   sample to a column that is every column, with two it is the first column and the last. Whatever
   else can be drawn is met by a constant. -/
namespace CurveSketch

section
variable {σ α : Type}

theorem answers_length {f : Probe σ α} {xs ys : List α} {start last : σ}
    (answers : Answers f xs start ys last) : ys.length = xs.length := by
  induction answers with
  | nil s => rfl
  | cons call rest ih => rw [List.length_cons, List.length_cons, ih]

variable [Scalar α]

theorem held_of_mem {f : Probe σ α} {cs : List (Constraint α)} {start last : σ}
    (holds : HoldInTurn f cs start last) :
    ∀ c ∈ cs, ∃ before ys after, Answers f c.samples before ys after ∧ c.rule.Met ys := by
  induction holds with
  | nil s => simp
  | cons answers met rest ih => exact List.forall_mem_cons.mpr ⟨⟨_, _, _, answers, met⟩, ih⟩

theorem violated_of_unmet {s : Sketch α} {samples : ℕ} {cs : List (Constraint α)}
    (accepted : (s.convert ⟨samples⟩).result = .ok cs) {c : Constraint α} (member : c ∈ cs)
    (unmet : ∀ ys : List α, ys.length = c.samples.length → ¬ c.rule.Met ys)
    (f : Subject σ α) (start : σ) :
    ∃ violation, (f.check samples s start).halt? = some (.violated violation) := by
  rw [f.check_eq, (trial_of_accepted f.catching start accepted).1]
  cases halts : (Trial.ofConstraints f.catching cs start).halt? with
  | none =>
    obtain ⟨last, holds⟩ := (Trial.ofConstraints_passes_iff f.catching cs start).mp halts
    obtain ⟨before, ys, after, answers, met⟩ := held_of_mem holds c member
    exact absurd met (unmet ys (answers_length answers))
  | some halt =>
    obtain ⟨violation, rfl⟩ := Trial.violated_of_intercepted f.catching_intercepts halts
    exact ⟨violation, rfl⟩

theorem constant_passes {c : Constraint α} {y : α}
    (met : c.rule.Met (c.samples.map fun _ => y)) (start : σ) :
    (Trial.ofConstraint (Subject.steady fun _ => .value y).catching c start).halt? = none := by
  rw [Trial.ofConstraint_passes_iff]
  refine ⟨c.samples.map fun _ => y, start, ?_, met⟩
  rw [steady_answers_iff]
  refine ⟨rfl, ?_⟩
  rw [List.map_map]
  rfl

theorem Sketch.constraint_of_stroke {s : Sketch α} {samples : ℕ} {across down : Scale α}
    {cs : List (Constraint α)} (scales : s.scales ⟨samples⟩ = .ok (across, down))
    (reads : Reads across down samples 0 s.columns cs) {i : ℕ} (inside : i < s.ruler.marks.length)
    {stroke : Stroke} (shows : Shows (s.column i) stroke) :
    ⟨across.samples samples i, stroke.rule down⟩ ∈ cs := by
  have origin := Sketch.constraints_of_strokes scales reads (· ∈ cs)
  exact origin.mp (fun _ member => member) i inside stroke shows

end

theorem two_of_spanned {low high innerLow innerHigh : ℚ} (proper : innerLow < innerHigh)
    {ys : List ℚ} (met : (Rule.spanning low high innerLow innerHigh).Met ys) : 2 ≤ ys.length := by
  obtain ⟨_, ⟨y, above, high⟩, z, below, low⟩ := met
  have high' : innerHigh < y := high
  have low' : z < innerLow := low
  have apart : y ≠ z := by
    intro same
    rw [same] at high'
    linarith
  cases ys with
  | nil => simp at above
  | cons x rest =>
    cases rest with
    | nil =>
      rw [List.mem_singleton] at above below
      exact absurd (above.trans below.symm) apart
    | cons x' rest => simp

section
variable {down : Scale ℚ} (ascending : down.toList.IsChain fun t u => t.position < u.position)
  (descending : down.toList.IsChain fun t u => u.value < t.value)
include ascending descending

theorem thick_rule_unmet {run : Run} (thick : 3 ≤ run.height) {ys : List ℚ}
    (few : ys.length < 2) : ¬ ((Stroke.line run).rule down).Met ys := by
  have rows : run.top + 2 ≤ run.bottom := by
    unfold Run.height at thick
    omega
  obtain ⟨_, proper⟩ := Scale.inner_proper ascending descending rows
  rw [Stroke.rule, if_neg (by simpa [Stroke.thick] using thick)]
  intro met
  have two := two_of_spanned proper met
  omega

theorem outer_met {run : Run} (ordered : run.top ≤ run.bottom) (xs : List ℚ) :
    (Stroke.outer down run).Met (xs.map fun _ => (down.cell run.bottom).lower) := by
  have proper := Scale.range_proper ascending descending ordered
  refine ⟨?_, trivial⟩
  intro z member
  obtain ⟨_, _, rfl⟩ := List.mem_map.mp member
  exact ⟨le_refl _, proper⟩

theorem constant_meets {c : Column} {stroke : Stroke} (shows : Shows c stroke)
    (thin : ∀ run, stroke = .line run → run.height < 3) :
    ∃ y, ∀ xs : List ℚ, (stroke.rule down).Met (xs.map fun _ => y) := by
  have ordered := shows.ordered
  cases stroke with
  | point row =>
    refine ⟨(down.cell row).center, fun xs => ⟨?_, trivial⟩⟩
    intro z member
    obtain ⟨_, _, rfl⟩ := List.mem_map.mp member
    exact beq_self_eq_true (α := ℚ) _
  | band run => exact ⟨_, outer_met ascending descending ordered⟩
  | line run =>
    have low : run.height < Stroke.thick := thin run rfl
    rw [Stroke.rule, if_pos low]
    exact ⟨_, outer_met ascending descending ordered⟩

end

namespace Scale
variable {s : Scale ℚ} {width : ℕ} (laid : s.Laid (fun a b => a < b) width)
include laid

theorem samples_midpoints {count : ℕ} (some : 1 ≤ count) (i : ℕ) :
    s.samples count i = ((List.range count).map (s.midpoint count i)).filter
      fun x => s.first.value ≤ x ∧ x ≤ s.last.value := by
  rw [samples, domain_rat laid.ascending, cell_midpoints laid.ascending laid.ordered some]

theorem samples_once {i : ℕ} (inside : i < width) : s.samples 1 i = [(s.cell i).center] := by
  have center : s.midpoint 1 i 0 = (s.cell i).center := by
    simp [midpoint]
  have domain : s.first.value ≤ (s.cell i).center ∧ (s.cell i).center ≤ s.last.value :=
    ⟨first_le_center laid i, center_le_last laid inside⟩
  rw [samples_midpoints laid (le_refl 1), List.range_one, List.map_singleton, center]
  exact List.filter_cons_of_pos (by simpa using domain)

theorem midpoints_twice (i : ℕ) :
    s.midpoint 2 i 0 < (s.cell i).center ∧ (s.cell i).center < s.midpoint 2 i 1 := by
  have slice := slice_positive laid.ascending laid.ordered (show 1 ≤ 2 by omega) i
  unfold midpoint
  push_cast at slice ⊢
  constructor <;> linarith

theorem two_columns : 2 ≤ width := by
  have apart := segment_of_chain laid.ascending s.last.position
  have last := laid.last
  rw [segment_last laid.ascending] at apart
  omega

theorem samples_twice (i : ℕ) :
    s.samples 2 i = [s.midpoint 2 i 0, s.midpoint 2 i 1].filter
      fun x => s.first.value ≤ x ∧ x ≤ s.last.value :=
  samples_midpoints laid (by omega) i

theorem samples_twice_first : s.samples 2 0 = [s.midpoint 2 0 1] := by
  have two := two_columns laid
  have some : 1 ≤ 2 := by omega
  have low : ¬ s.first.value ≤ s.midpoint 2 0 0 := by
    rw [← center_zero laid]
    exact not_le.mpr (midpoints_twice laid 0).1
  have kept : s.midpoint 2 0 1 ∈ s.samples 2 0 := last_midpoint_sampled laid some (by omega)
  obtain ⟨_, _, _, domain⟩ := (mem_samples laid.ascending laid.ordered some 0 _).mp kept
  rw [samples_twice laid, List.filter_cons_of_neg (by simp [low]),
    List.filter_cons_of_pos (by simpa using domain), List.filter_nil]

theorem samples_twice_last : s.samples 2 (width - 1) = [s.midpoint 2 (width - 1) 0] := by
  have two := two_columns laid
  have some : 1 ≤ 2 := by omega
  obtain ⟨i, final⟩ : ∃ i, i + 2 = width := ⟨width - 2, by omega⟩
  have here : width - 1 = i + 1 := by omega
  have high : ¬ s.midpoint 2 (i + 1) 1 ≤ s.last.value := by
    rw [← center_last laid final]
    exact not_le.mpr (midpoints_twice laid (i + 1)).2
  have kept : s.midpoint 2 (i + 1) 0 ∈ s.samples 2 (i + 1) :=
    first_midpoint_sampled laid some final
  obtain ⟨_, _, _, domain⟩ := (mem_samples laid.ascending laid.ordered some (i + 1) _).mp kept
  rw [here, samples_twice laid, List.filter_cons_of_pos (by simpa using domain),
    List.filter_cons_of_neg (by simp [high]), List.filter_nil]

end Scale

/-- No function conforms to an accepted picture with a thick line in a column that has fewer than
    two samples. With one sample to a column every column is such, with two the first one and the
    last one are. A point, a band or a thin line is always met by some constant function. -/
theorem thick_line_needs_two_samples (s : Sketch ℚ) (samples : ℕ) :
    ∀ cs, (s.convert ⟨samples⟩).result = .ok cs →
      ∃ across down, s.across = .ok across ∧ s.down = .ok down ∧
        (∀ i < s.ruler.marks.length, ∀ run : Run, Spans (s.column i) 'I' run →
          3 ≤ run.height → (across.samples samples i).length < 2 →
            ∀ (σ : Type) (f : Subject σ ℚ) (start : σ),
              ∃ violation, (f.check samples s start).halt? = some (.violated violation)) ∧
        (∀ i < s.ruler.marks.length, (across.samples 1 i).length = 1) ∧
        (across.samples 2 0).length = 1 ∧
        (across.samples 2 (s.ruler.marks.length - 1)).length = 1 ∧
        ∀ i < s.ruler.marks.length, ∀ stroke, Shows (s.column i) stroke →
          (∀ run, stroke = .line run → run.height < 3) →
            ⟨across.samples samples i, stroke.rule down⟩ ∈ cs ∧
            ∃ y, ∀ (σ : Type) (start : σ),
              (Trial.ofConstraint (Subject.steady fun _ => .value y).catching
                ⟨across.samples samples i, stroke.rule down⟩ start).halt? = none := by
  intro cs accepted
  obtain ⟨across, down, scales, reads⟩ := (s.convert_ok_iff samples cs).mp accepted
  obtain ⟨_, _, isAcross, isDown⟩ := (s.scales_ok_iff samples across down).mp scales
  have laid := Sketch.across_laid isAcross
  have ascending := (Sketch.down_laid isDown).ascending
  have descending := Sketch.down_descends isDown
  refine ⟨across, down, isAcross, isDown, ?_, ?_, ?_, ?_, ?_⟩
  · intro i inside run spans thick few σ f start
    have shows : Shows (s.column i) (.line run) := spans
    have member := Sketch.constraint_of_stroke scales reads inside shows
    refine violated_of_unmet accepted member ?_ f start
    intro ys length
    exact thick_rule_unmet ascending descending thick (by rwa [length])
  · intro i inside
    rw [Scale.samples_once laid inside]
    rfl
  · rw [Scale.samples_twice_first laid]
    rfl
  · rw [Scale.samples_twice_last laid]
    rfl
  · intro i inside stroke shows thin
    refine ⟨Sketch.constraint_of_stroke scales reads inside shows, ?_⟩
    obtain ⟨y, met⟩ := constant_meets ascending descending shows thin
    exact ⟨y, fun σ start => constant_passes (met _) start⟩

def mast : Sketch ℚ :=
  ⟨[⟨some 4, "I X".toList⟩, ⟨some 3, "II ".toList⟩, ⟨some 1, "II ".toList⟩],
    ⟨"| |".toList, [0, 2]⟩⟩

def swinging : Subject ℕ ℚ := fun _ calls =>
  (.value (if calls % 2 = 0 then 17 / 4 else 1), calls + 1)

theorem mast_needs_two_samples :
    (mast.convert ⟨2⟩).result = .ok [⟨[1 / 4], .spanning 0 (9 / 2) 2 4⟩,
        ⟨[3 / 4, 5 / 4], .within 0 4⟩, ⟨[7 / 4], .equals 4⟩] ∧
      Spans (mast.column 0) 'I' ⟨0, 2⟩ ∧
      (∃ violation, (swinging.check 2 mast 0).halt? = some (.violated violation)) ∧
      (Trial.ofConstraint swinging.catching ⟨[1 / 8, 3 / 8], .spanning 0 (9 / 2) 2 4⟩ 0).halt? =
        none ∧
      ∃ y, (Trial.ofConstraint (Subject.steady fun _ => .value y).catching
        ⟨[3 / 4, 5 / 4], .within (0 : ℚ) 4⟩ ()).halt? = none := by
  have converts : (mast.convert ⟨2⟩).result = .ok [⟨[1 / 4], .spanning 0 (9 / 2) 2 4⟩,
      ⟨[3 / 4, 5 / 4], .within 0 4⟩, ⟨[7 / 4], .equals 4⟩] := by decide +kernel
  have tall : Spans (mast.column 0) 'I' ⟨0, 2⟩ :=
    (spans_iff_run _ _ (by decide) _).mpr ⟨by decide +kernel, by decide +kernel⟩
  have short : Spans (mast.column 1) 'I' ⟨1, 2⟩ :=
    (spans_iff_run _ _ (by decide) _).mpr ⟨by decide +kernel, by decide +kernel⟩
  have isAcross : mast.across = .ok ⟨⟨0, 0⟩, ⟨2, 2⟩, []⟩ := by decide +kernel
  have isDown : mast.down = .ok ⟨⟨4, 0⟩, ⟨3, 1⟩, [⟨1, 2⟩]⟩ := by decide +kernel
  obtain ⟨across, down, isAcross', isDown', thick, _, first, _, thin⟩ :=
    thick_line_needs_two_samples mast 2 _ converts
  cases isAcross.symm.trans isAcross'
  cases isDown.symm.trans isDown'
  have samples : Scale.samples ⟨⟨0, 0⟩, ⟨2, 2⟩, []⟩ 2 1 = ([3 / 4, 5 / 4] : List ℚ) := by
    decide +kernel
  have rule : (Stroke.line ⟨1, 2⟩).rule ⟨⟨4, 0⟩, ⟨3, 1⟩, [⟨1, 2⟩]⟩ = (.within 0 4 : Rule ℚ) := by
    decide +kernel
  obtain ⟨_, y, passes⟩ := thin 1 (by decide) (.line ⟨1, 2⟩) short (by rintro _ ⟨rfl⟩; decide)
  rw [samples, rule] at passes
  exact ⟨converts, tall,
    thick 0 (by decide) ⟨0, 2⟩ tall (by decide) (by rw [first]; decide) ℕ swinging 0,
    by decide +kernel, y, passes Unit ()⟩

end CurveSketch
