import CurveSketch.Proofs.Acceptance
import CurveSketch.Proofs.Sampling
import CurveSketch.Proofs.Verdict

/- When an accepted picture of doubles demands something of every function: which of its numbers
   exist, which of its columns are sampled, and which calls a check that passes has made. -/
namespace CurveSketch

namespace Extended
variable {p q : Extended}

theorem number_add_defined (x : ℚ) (defined : p ≠ .undefined) : (number x).add p ≠ .undefined := by
  intro none
  cases p with
  | undefined => exact defined rfl
  | infinite s => cases none
  | number y => exact stored_defined (x + y) none

theorem add_number_defined (y : ℚ) (defined : p ≠ .undefined) : p.add (number y) ≠ .undefined := by
  intro none
  cases p with
  | undefined => exact defined rfl
  | infinite s => cases none
  | number x => exact stored_defined (x + y) none

theorem infinite_reach (p : Extended) (x : ℚ) (s : Bool) :
    (p.add ((number x).mul (infinite s)) = .undefined) ∨
      (p.add ((number x).mul (infinite s))).add (infinite false) = .undefined ∨
      (p.add ((number x).mul (infinite s))).add (infinite true) = .undefined := by
  have product : (number x).mul (infinite s) = .undefined ∨
      ∃ t, (number x).mul (infinite s) = .infinite t := by
    simp only [mul]
    split
    · exact Or.inl rfl
    · exact Or.inr ⟨_, rfl⟩
  rcases product with none | ⟨t, some⟩
  · left
    rw [none]
    cases p <;> rfl
  · rw [some]
    cases p with
    | undefined => exact Or.inl rfl
    | infinite r => cases r <;> cases t <;> simp [add]
    | number y => cases t <;> simp [add]

end Extended

def Cell.Numeric (c : Cell Float) : Prop :=
  c.lower.isNaN = false ∧ c.upper.isNaN = false ∧ c.center.isNaN = false

namespace Segment
variable {g : Segment Float} {i : ℕ}

theorem reach_reading (g : Segment Float) :
    reading (half (Scalar.magnitude g.step)) = (reading g.step).size.divide 2 := by
  obtain ⟨two_finite, two_is⟩ := worth_two
  have quotient := reading_div (Scalar.magnitude g.step) (reading_worth two_finite)
    (by rw [two_is]; norm_num)
  have size : reading (Scalar.magnitude g.step) = (reading g.step).size := reading_abs g.step
  rwa [two_is, size] at quotient

theorem numeric_iff_readings (g : Segment Float) (i : ℕ) :
    (g.cell i).Numeric ↔
      (reading (g.cell i).center).add ((reading g.step).size.divide 2).neg ≠ .undefined ∧
      (reading (g.cell i).center).add ((reading g.step).size.divide 2) ≠ .undefined ∧
      reading (g.cell i).center ≠ .undefined := by
  have lower : reading (g.cell i).lower =
      (reading (g.cell i).center).add (reading (half (Scalar.magnitude g.step))).neg :=
    reading_sub _ _
  have upper : reading (g.cell i).upper =
      (reading (g.cell i).center).add (reading (half (Scalar.magnitude g.step))) :=
    reading_add _ _
  rw [Cell.Numeric, not_nan_iff, not_nan_iff, not_nan_iff, lower, upper, reach_reading]

theorem numeric_of_finite (inside : g.start.position ≤ i) (few : i ≤ 2 ^ 53)
    (ascending : g.start.position < g.stop.position) (stop_few : g.stop.position ≤ 2 ^ 53)
    (finite : g.step.isFinite = true) : (g.cell i).Numeric := by
  obtain ⟨start_finite, _, _⟩ := step_worth ascending stop_few finite
  have magnitude : reading (Scalar.magnitude g.step) = .number |worth g.step| := by
    refine (reading_abs g.step).trans ?_
    rw [reading_worth finite, Extended.size]
  have reach := reading_worth (half_finite (finite_of_reading magnitude).1).1
  have defined : reading (g.cell i).center ≠ .undefined := by
    rw [center_reading inside few, reading_worth start_finite, reading_worth finite]
    exact Extended.number_add_defined _ (Extended.stored_defined _)
  rw [numeric_iff_readings, ← reach_reading, reach]
  exact ⟨Extended.add_number_defined _ defined, Extended.add_number_defined _ defined, defined⟩

theorem finite_of_numeric (inside : g.start.position ≤ i) (few : i ≤ 2 ^ 53)
    (numeric : (g.cell i).Numeric) : g.step.isFinite = true := by
  rw [numeric_iff_readings, center_reading inside few] at numeric
  by_contra infinite
  cases step : reading g.step with
  | number t => exact infinite (finite_of_reading step).1
  | undefined =>
    rw [step] at numeric
    apply numeric.2.2
    cases reading g.start.value <;> rfl
  | infinite s =>
    have reach : (Extended.infinite s).size.divide 2 = .infinite false := by
      simp [Extended.size, Extended.divide]
    rw [step, reach] at numeric
    rcases Extended.infinite_reach (reading g.start.value) ((i - g.start.position : ℕ) : ℚ) s
      with none | none | none
    · exact numeric.2.2 none
    · exact numeric.2.1 none
    · exact numeric.1 none

theorem numeric_iff (inside : g.start.position ≤ i) (few : i ≤ 2 ^ 53)
    (ascending : g.start.position < g.stop.position) (stop_few : g.stop.position ≤ 2 ^ 53) :
    (g.cell i).Numeric ↔ g.step.isFinite = true :=
  ⟨finite_of_numeric inside few, numeric_of_finite inside few ascending stop_few⟩

end Segment

def Rule.numbers {α : Type} : Rule α → List α
  | .equals y => [y]
  | .within low high => [low, high]
  | .spanning low high innerLow innerHigh => [low, high, innerLow, innerHigh]

theorem rule_numbers_of_rows {α : Type} [Scalar α] (down : Scale α) (s : Stroke)
    (ordered : s.run.top ≤ s.run.bottom) :
    ∀ y ∈ (s.rule down).numbers, ∃ row, s.run.top ≤ row ∧ row ≤ s.run.bottom ∧
      (y = (down.cell row).lower ∨ y = (down.cell row).upper ∨ y = (down.cell row).center) := by
  have outer (run : Run) (ordered : run.top ≤ run.bottom) (y : α)
      (member : y = (down.cell run.bottom).lower ∨ y = (down.cell run.top).upper) :
      ∃ row, run.top ≤ row ∧ row ≤ run.bottom ∧
        (y = (down.cell row).lower ∨ y = (down.cell row).upper ∨ y = (down.cell row).center) := by
    rcases member with low | high
    · exact ⟨run.bottom, ordered, le_rfl, Or.inl low⟩
    · exact ⟨run.top, le_rfl, ordered, Or.inr (Or.inl high)⟩
  intro y member
  cases s with
  | point row => exact ⟨row, le_rfl, le_rfl, Or.inr (Or.inr (List.mem_singleton.mp member))⟩
  | band run =>
    simp only [Stroke.rule, Stroke.outer, Rule.numbers, List.mem_cons, List.not_mem_nil,
      or_false] at member
    exact outer run ordered y member
  | line run =>
    simp only [Stroke.rule] at member
    split at member
    · simp only [Stroke.outer, Rule.numbers, List.mem_cons, List.not_mem_nil,
        or_false] at member
      exact outer run ordered y member
    · rename_i thick
      simp only [Rule.numbers, List.mem_cons, List.not_mem_nil, or_false] at member
      simp only [Run.height, Stroke.thick] at thick
      simp only [Stroke.run]
      rcases member with low | high | innerLow | innerHigh
      · exact outer run ordered y (Or.inl low)
      · exact outer run ordered y (Or.inr high)
      · exact ⟨run.bottom - 1, by omega, by omega, Or.inl innerLow⟩
      · exact ⟨run.top + 1, by omega, by omega, Or.inr (Or.inl innerHigh)⟩

theorem samples_numeric (across : Scale Float) (count i : ℕ) :
    ∀ x ∈ across.samples count i, x.isNaN = false := by
  intro x member
  have inDomain := of_decide_eq_true (List.mem_filter.mp member).2
  by_contra nan
  exact (nan_unordered (Bool.not_eq_false _ ▸ nan) _).2.1 inDomain.1

namespace Sketch
variable {σ : Type} {s : Sketch Float} {samples : ℕ} {cs : List (Constraint Float)}

theorem column_length_le (s : Sketch Float) (i : ℕ) : (s.column i).length ≤ s.rows.length := by
  rw [column, columnAt]
  exact (List.length_filterMap_le _ _).trans_eq (List.length_map _)

theorem row_numeric_iff {down : Scale Float} (isDown : s.down = .ok down)
    (few : s.rows.length ≤ 2 ^ 53) {row : ℕ} (inside : row < s.rows.length) :
    (down.cell row).Numeric ↔ (down.segment row).step.isFinite = true := by
  have laid := Sketch.down_laid isDown
  have last := laid.last
  have furthest : (down.segment row).stop.position ≤ down.last.position :=
    Scale.bracket_stop_le laid.ascending row
  exact Segment.numeric_iff (Scale.bracket_start_le row (by rw [laid.first]; omega)) (by omega)
    (Scale.segment_of_chain laid.ascending row) (by omega)

/-- A stroke asks for numbers as long as the steps of its rows are finite. -/
theorem rule_numeric {down : Scale Float} (isDown : s.down = .ok down)
    (few : s.rows.length ≤ 2 ^ 53) {i : ℕ} {stroke : Stroke} (shows : Shows (s.column i) stroke)
    (finite : ∀ row, stroke.run.top ≤ row → row ≤ stroke.run.bottom →
      (down.segment row).step.isFinite = true) :
    ∀ y ∈ (stroke.rule down).numbers, y.isNaN = false := by
  intro y member
  obtain ⟨row, high, low, place⟩ := rule_numbers_of_rows down stroke shows.ordered y member
  have inside : row < s.rows.length :=
    (low.trans_lt shows.inside).trans_le (s.column_length_le i)
  obtain ⟨lower, upper, center⟩ := (row_numeric_iff isDown few inside).mpr (finite row high low)
  rcases place with rfl | rfl | rfl
  · exact lower
  · exact upper
  · exact center

theorem constraints_sampled_iff {across down : Scale Float}
    (scales : s.scales ⟨samples⟩ = .ok (across, down))
    (reads : Reads across down samples 0 s.columns cs) :
    (∀ c ∈ cs, c.samples ≠ []) ↔ ∀ i < s.ruler.marks.length, (s.column i).isBlank = false →
      across.samples samples i ≠ [] := by
  rw [constraints_of_strokes scales reads fun c => c.samples ≠ []]
  constructor
  · intro all i inside visible
    rcases column_readable scales reads inside with blank | ⟨stroke, shows⟩
    · rw [visible] at blank
      cases blank
    · exact all i inside stroke shows
  · intro all i inside stroke shows
    exact all i inside (shows_not_blank shows)

end Sketch

def farApart : Sketch Float :=
  ⟨[⟨some 1, ['X', ' ']⟩, ⟨some 0, [' ', 'X']⟩], ⟨['|', '|'], [-1.7e308, 1.7e308]⟩⟩

def closeTogether : Sketch Float :=
  ⟨[⟨some 1, "        X  ".toList⟩, ⟨some 0, "           ".toList⟩],
    ⟨"|        ||".toList, [0, Float.ofBits 5, Float.ofBits 6]⟩⟩

def bottomless : Sketch Float :=
  ⟨[⟨some (1 / 0), ['X', ' ']⟩, ⟨some 0, [' ', 'X']⟩], ⟨['|', '|'], [0, 1]⟩⟩

theorem far_apart_converts :
    (farApart.convert ⟨1⟩).result = .ok [⟨[], .equals 1⟩, ⟨[], .equals 0⟩] := by
  decide +kernel

theorem far_apart_passes {σ : Type} (f : Subject σ Float) (start : σ) :
    (f.check 1 farApart start).halt? = none ∧ (f.check 1 farApart start).calls = [] := by
  have trial := trial_of_constraints f.catching start far_apart_converts
  have same : f.check 1 farApart start = farApart.trial ⟨1⟩ f.catching start := rfl
  rw [same, trial]
  exact ⟨rfl, rfl⟩

def falling : Sketch Float :=
  ⟨[⟨some 1, "X   ".toList⟩, ⟨some 0, " X  ".toList⟩], ⟨"||||".toList, [0, 1, 2, 1 / 0]⟩⟩

def drop : Subject Unit Float := fun x s => (.value (if x < 0.5 then 1 else 0), s)

theorem falling_converts : (falling.convert ⟨4⟩).result =
    .ok [⟨[0.125, 0.375], .equals 1⟩, ⟨[0.625, 0.875, 1.125, 1.375], .equals 0⟩] := by
  decide +kernel

end CurveSketch
