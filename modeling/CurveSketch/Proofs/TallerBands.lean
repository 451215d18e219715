import CurveSketch.Proofs.Crowding
import CurveSketch.Proofs.InnerBand
import CurveSketch.Proofs.Verdict

/- Taller bands: a band is drawn over one more row. The lower edge of its range falls with every
   row below. The upper edge is that of the top row alone, so a row above takes from the range
   where the row below it falls more than three times as far. -/
namespace CurveSketch
variable {σ α : Type}

theorem Spans.grow {c : Column} {glyph : Char} {run run' : Run} (spans : Spans c glyph run)
    {row : ℕ} (inside : row < c.length)
    (rows : ∀ r, run'.top ≤ r ∧ r ≤ run'.bottom ↔ r = row ∨ run.top ≤ r ∧ r ≤ run.bottom) :
    Spans (c.set row glyph) glyph run' := by
  have added := (rows row).mpr (Or.inl rfl)
  have ordered := added.1.trans added.2
  refine ⟨ordered, ?_, fun r below => ?_⟩
  · rw [List.length_set]
    rcases (rows run'.bottom).mp ⟨ordered, le_refl _⟩ with here | before
    · rwa [here]
    · exact before.2.trans_lt spans.inside
  · rw [List.length_set] at below
    simp only [List.getElem?_set, rows r]
    by_cases here : row = r
    · simp [here, below]
    · simp [here, Ne.symm here, spans.glyphs r below]

namespace Sketch

def ink (s : Sketch α) (row i : ℕ) : Sketch α :=
  { s with rows := s.rows.modify row fun r =>
      { r with glyphs := r.glyphs.set i Stroke.bandGlyph } }

/-- Whatever conforms to the first sketch conforms to the second. -/
def Implies [Scalar α] (samples : ℕ) (start : σ) (s s' : Sketch α) : Prop :=
  ∀ f : α → Outcome α, ((Subject.steady f).check samples s start).halt? = none →
    ((Subject.steady f).check samples s' start).halt? = none

theorem column_eq_map {s : Sketch α} {i : ℕ} (reach : ∀ r ∈ s.rows, i < r.glyphs.length) :
    s.column i = s.rows.map (·.glyphs.getD i blank) := by
  rw [column, columnAt, List.filterMap_map, List.filterMap_eq_map_iff_forall_eq_some]
  intro r member
  simp [reach r member]

section
variable (s : Sketch α) (row i : ℕ)

theorem ink_widths : (s.ink row i).rows.map Row.width = s.rows.map Row.width :=
  map_modify_of_same (by simp [Row.width]) _ _

theorem ink_column_other {j : ℕ} (other : j ≠ i) : (s.ink row i).column j = s.column j := by
  have glyphs (s : Sketch α) : s.column j = (s.rows.map (·.glyphs[j]?)).filterMap id := by
    rw [column, columnAt, List.filterMap_map, List.filterMap_map]
    rfl
  rw [glyphs, glyphs, ink, map_modify_of_same fun r => List.getElem?_set_ne other.symm]

theorem ink_column {s : Sketch α} {row i : ℕ} (reach : ∀ r ∈ s.rows, i < r.glyphs.length) :
    (s.ink row i).column i = (s.column i).set row Stroke.bandGlyph := by
  have reach' : ∀ r ∈ (s.ink row i).rows, i < r.glyphs.length := by
    have widths : ∀ w ∈ (s.ink row i).rows.map Row.width, i < w := by
      rw [ink_widths]
      exact List.forall_mem_map.mpr reach
    exact List.forall_mem_map.mp widths
  rw [column_eq_map reach, column_eq_map reach']
  refine List.ext_getElem? fun r => ?_
  rw [ink, List.getElem?_map, List.getElem?_modify, List.getElem?_set, List.length_map,
    List.getElem?_map]
  cases found : s.rows[r]? with
  | none =>
    have beyond := List.getElem?_eq_none_iff.mp found
    by_cases here : row = r <;> simp [here]
    omega
  | some old =>
    obtain ⟨below, rfl⟩ := List.getElem?_eq_some_iff.mp found
    have wide := reach _ (List.getElem_mem below)
    by_cases here : row = r <;> simp [here, below, wide]

variable [Scalar α]

theorem ink_scales (options : Options) : (s.ink row i).scales options = s.scales options := by
  have labels : (s.ink row i).rows.map (·.label?) = s.rows.map (·.label?) :=
    map_modify_of_same (by intro r; rfl) _ _
  have down : (s.ink row i).down = s.down := congrArg Axis.y.scale labels
  have widths : (s.ink row i).checkWidths = s.checkWidths := by
    have all (s : Sketch α) : (s.rows.all fun row => row.width == s.ruler.width) =
        (s.rows.map Row.width).all (· == s.ruler.width) := by
      rw [List.all_map]
      rfl
    simp only [checkWidths, all, ink_widths]
    rfl
  rw [scales, scales, widths, down]
  rfl

end

variable [Scalar α] {s : Sketch α} {samples : ℕ} {across down : Scale α}
  {cs : List (Constraint α)}

theorem reach_of_scales (scales : s.scales ⟨samples⟩ = .ok (across, down)) {i : ℕ}
    (inside : i < s.ruler.marks.length) : ∀ r ∈ s.rows, i < r.glyphs.length := by
  obtain ⟨_, widths, _, _⟩ := (s.scales_ok_iff samples across down).mp scales
  have equal := s.widths_decided.accepts.mp ⟨_, widths⟩ _ (List.mem_singleton_self _)
  intro r member
  rwa [equal r member]

theorem implies_of_columns {s' : Sketch α} (start : σ)
    (scales : s.scales ⟨samples⟩ = .ok (across, down))
    (scales' : s'.scales ⟨samples⟩ = .ok (across, down)) (sameRuler : s'.ruler = s.ruler)
    (readable : ∀ i < s.ruler.marks.length, Readable (s.column i))
    (readable' : ∀ i < s.ruler.marks.length, Readable (s'.column i))
    (columns : ∀ i < s.ruler.marks.length, ∀ f : α → Outcome α,
      ColumnHolds f (across.samples samples i) down (s.column i) →
        ColumnHolds f (across.samples samples i) down (s'.column i)) :
    s.Implies samples start s' := by
  intro f passes
  rw [passes_iff_columns scales readable] at passes
  rw [passes_iff_columns scales' (by rwa [sameRuler]), sameRuler]
  intro i inside
  exact columns i inside f (passes i inside)

end Sketch

theorem column_holds_of_band [Scalar α] {f : α → Outcome α} {xs : List α} {down : Scale α}
    {c : Column} {run : Run} (spans : Spans c 'i' run) :
    ColumnHolds f xs down c ↔ ∀ x ∈ xs, ∃ y, f x = .value y ∧
      (down.cell run.bottom).lower ≤ y ∧ y ≤ (down.cell run.top).upper := by
  rw [column_holds_of_run (s := .band run) (Or.inl rfl) spans]
  simp

namespace Scale
variable {down : Scale ℚ} (ascending : down.toList.IsChain fun t u => t.position < u.position)
  (descending : down.toList.IsChain fun t u => u.value < t.value)

theorem upper_le_iff (down : Scale ℚ) (row row' : ℕ) :
    (down.cell row').upper ≤ (down.cell row).upper ↔
      down.drop row' ≤ down.drop row + 2 * ((down.cell row).center - (down.cell row').center) := by
  rw [upper_rat, upper_rat]
  constructor <;> intro bound <;> linarith

include ascending descending

theorem upper_antitone {top row : ℕ} (below : top ≤ row)
    (gentle : ∀ k, top ≤ k → k < row → down.drop (k + 1) ≤ 3 * down.drop k) :
    (down.cell row).upper ≤ (down.cell top).upper := by
  induction row, below using Nat.le_induction with
  | base => exact le_refl _
  | succ row below ih =>
    have next := (upper_next_le_iff ascending descending row).mpr
      (gentle row below (Nat.lt_succ_self row))
    exact next.trans (ih fun k low high => gentle k low (by omega))

theorem range_proper {run : Run} (ordered : run.top ≤ run.bottom) :
    (down.cell run.bottom).lower ≤ (down.cell run.top).upper := by
  have falls := lower_antitone ascending descending ordered
  have positive := drop_positive ascending descending run.top
  have cell : (down.cell run.top).lower ≤ (down.cell run.top).upper := by
    rw [lower_rat, upper_rat]
    linarith
  exact falls.trans cell

end Scale

theorem bands_imply_iff {down : Scale ℚ} {c c' : Column} {run run' : Run} {xs : List ℚ}
    (spans : Spans c 'i' run) (spans' : Spans c' 'i' run') (sampled : xs ≠ [])
    (proper : (down.cell run.bottom).lower ≤ (down.cell run.top).upper) :
    (∀ f : ℚ → Outcome ℚ, ColumnHolds f xs down c → ColumnHolds f xs down c') ↔
      (down.cell run'.bottom).lower ≤ (down.cell run.bottom).lower ∧
        (down.cell run.top).upper ≤ (down.cell run'.top).upper := by
  obtain ⟨x, member⟩ := List.exists_mem_of_ne_nil xs sampled
  have constant (y : ℚ) (low : (down.cell run.bottom).lower ≤ y)
      (high : y ≤ (down.cell run.top).upper) :
      ColumnHolds (fun _ => .value y) xs down c :=
    (column_holds_of_band spans).mpr fun _ _ => ⟨y, rfl, low, high⟩
  constructor
  · intro implies
    -- the functions that always give an end of the range decide it
    have low := implies _ (constant _ (le_refl _) proper)
    have high := implies _ (constant _ proper (le_refl _))
    obtain ⟨_, same, above, _⟩ := (column_holds_of_band spans').mp low x member
    obtain ⟨_, same', _, below⟩ := (column_holds_of_band spans').mp high x member
    cases same
    cases same'
    exact ⟨above, below⟩
  · intro wider f holds
    rw [column_holds_of_band spans] at holds
    rw [column_holds_of_band spans']
    intro x sampled
    obtain ⟨y, outcome, low, high⟩ := holds x sampled
    exact ⟨y, outcome, le_trans (α := ℚ) wider.1 low, le_trans (α := ℚ) high wider.2⟩

namespace Sketch

theorem grown_band {s : Sketch ℚ} {samples : ℕ} {across down : Scale ℚ}
    {cs : List (Constraint ℚ)} (start : σ) (scales : s.scales ⟨samples⟩ = .ok (across, down))
    (reads : Reads across down samples 0 s.columns cs) {i : ℕ} (inside : i < s.ruler.marks.length)
    {run : Run} (spans : Spans (s.column i) 'i' run) {row : ℕ} (room : row < s.rows.length)
    (run' : Run)
    (rows : ∀ r, run'.top ≤ r ∧ r ≤ run'.bottom ↔ r = row ∨ run.top ≤ r ∧ r ≤ run.bottom) :
    (∃ cs', ((s.ink row i).convert ⟨samples⟩).result = .ok cs') ∧
      ((down.cell run'.bottom).lower ≤ (down.cell run.bottom).lower →
        (down.cell run.top).upper ≤ (down.cell run'.top).upper →
          s.Implies samples start (s.ink row i)) ∧
      ((down.cell run.bottom).lower ≤ (down.cell run'.bottom).lower →
        (down.cell run'.top).upper ≤ (down.cell run.top).upper →
          (s.ink row i).Implies samples start s) ∧
      ((∀ f : ℚ → Outcome ℚ, ColumnHolds f (across.samples samples i) down (s.column i) →
          ColumnHolds f (across.samples samples i) down ((s.ink row i).column i)) ↔
        (down.cell run'.bottom).lower ≤ (down.cell run.bottom).lower ∧
          (down.cell run.top).upper ≤ (down.cell run'.top).upper) := by
  obtain ⟨some, _, isAcross, isDown⟩ := (s.scales_ok_iff samples across down).mp scales
  have ascending := (Sketch.down_laid isDown).ascending
  have descending := Sketch.down_descends isDown
  have sampled := Scale.samples_inhabited (Sketch.across_laid isAcross) some inside
  have reach := reach_of_scales scales inside
  have spans' : Spans ((s.ink row i).column i) 'i' run' := by
    rw [ink_column reach]
    refine spans.grow ?_ rows
    rwa [column_eq_map reach, List.length_map]
  have scales' : (s.ink row i).scales ⟨samples⟩ = .ok (across, down) := by
    rw [ink_scales, scales]
  have readable : ∀ j < s.ruler.marks.length, Readable (s.column j) :=
    fun j below => column_readable scales reads below
  have readable' : ∀ j < s.ruler.marks.length, Readable ((s.ink row i).column j) := by
    intro j below
    by_cases here : j = i
    · subst here
      exact Or.inr ⟨.band run', spans'⟩
    · rw [ink_column_other s row i here]
      exact readable j below
  have wider := bands_imply_iff spans spans' sampled
    (Scale.range_proper ascending descending spans.ordered)
  have narrower := bands_imply_iff spans' spans sampled
    (Scale.range_proper ascending descending spans'.ordered)
  refine ⟨accepted_of_readable scales' readable', ?_, ?_, wider⟩
  · intro low high
    refine implies_of_columns start scales scales' rfl readable readable' ?_
    intro j below f holds
    by_cases here : j = i
    · subst here
      exact wider.mpr ⟨low, high⟩ f holds
    · rwa [ink_column_other s row i here]
  · intro low high
    refine implies_of_columns start scales' scales rfl readable' readable ?_
    intro j below f holds
    by_cases here : j = i
    · subst here
      exact narrower.mpr ⟨low, high⟩ f holds
    · rwa [ink_column_other s row i here] at holds

end Sketch

/-- A band may grow by a row below without asking for more. It may grow by a row above exactly if
    the row below that one falls at most three times as far as it does; where it falls further,
    the taller band asks for more. The range of a band holds the lower edges of all its rows, and
    the upper edges of those that do not fall too far to make up for their distance from the
    top. -/
theorem taller_band_decided (s : Sketch ℚ) (samples : ℕ) (start : σ) :
    ∀ cs, (s.convert ⟨samples⟩).result = .ok cs →
      ∃ across down, s.across = .ok across ∧ s.down = .ok down ∧
        ∀ i < s.ruler.marks.length, ∀ run : Run, Spans (s.column i) 'i' run →
          (run.bottom + 1 < s.rows.length →
            (∃ cs', ((s.ink (run.bottom + 1) i).convert ⟨samples⟩).result = .ok cs') ∧
            s.Implies samples start (s.ink (run.bottom + 1) i)) ∧
          (∀ row, row + 1 = run.top →
            (∃ cs', ((s.ink row i).convert ⟨samples⟩).result = .ok cs') ∧
            (down.drop run.top ≤ 3 * down.drop row →
              s.Implies samples start (s.ink row i)) ∧
            (3 * down.drop row ≤ down.drop run.top →
              (s.ink row i).Implies samples start s) ∧
            ((∀ f : ℚ → Outcome ℚ,
                ColumnHolds f (across.samples samples i) down (s.column i) →
                  ColumnHolds f (across.samples samples i) down ((s.ink row i).column i)) ↔
              down.drop run.top ≤ 3 * down.drop row)) ∧
          (∀ row, run.top ≤ row → row ≤ run.bottom →
            (down.cell run.bottom).lower ≤ (down.cell row).lower ∧
            ((down.cell row).upper ≤ (down.cell run.top).upper ↔
              down.drop row ≤ down.drop run.top +
                2 * ((down.cell run.top).center - (down.cell row).center))) ∧
          ((∀ row, run.top ≤ row → row < run.bottom →
              down.drop (row + 1) ≤ 3 * down.drop row) →
            ∀ row, run.top ≤ row → row ≤ run.bottom →
              (down.cell row).upper ≤ (down.cell run.top).upper) := by
  intro cs accepted
  obtain ⟨across, down, scales, reads⟩ := (s.convert_ok_iff samples cs).mp accepted
  obtain ⟨_, _, isAcross, isDown⟩ := (s.scales_ok_iff samples across down).mp scales
  have ascending := (Sketch.down_laid isDown).ascending
  have descending := Sketch.down_descends isDown
  refine ⟨across, down, isAcross, isDown, fun i inside run spans => ⟨?_, ?_, ?_, ?_⟩⟩
  · intro room
    have ordered := spans.ordered
    obtain ⟨accepted', implies, _, _⟩ := Sketch.grown_band start scales reads inside spans room
      ⟨run.top, run.bottom + 1⟩ (by simp only; omega)
    exact ⟨accepted', implies (Scale.lower_falls ascending descending run.bottom).le (le_refl _)⟩
  · intro row above
    have ordered := spans.ordered
    have room : row < s.rows.length := by
      have reach := Sketch.reach_of_scales scales inside
      have bottom := spans.inside
      rw [Sketch.column_eq_map reach, List.length_map] at bottom
      omega
    have rises := Scale.upper_next_le_iff ascending descending row
    have falls := Scale.upper_next_lt_iff ascending descending row
    rw [above] at rises falls
    obtain ⟨accepted', implies, implied, columns⟩ :=
      Sketch.grown_band start scales reads inside spans room ⟨row, run.bottom⟩
        (by simp only; omega)
    refine ⟨accepted', fun gentle => implies (le_refl _) (rises.mpr gentle), fun steep => ?_, ?_⟩
    · exact implied (le_refl _) (not_lt.mp fun less => absurd (falls.mp less) (not_lt.mpr steep))
    · rw [columns, rises]
      exact and_iff_right (le_refl _)
  · intro row below above
    exact ⟨Scale.lower_antitone ascending descending above, Scale.upper_le_iff down run.top row⟩
  · intro gentle row below above
    exact Scale.upper_antitone ascending descending below
      fun k low high => gentle k low (by omega)

def steepBand : Sketch ℚ :=
  ⟨[⟨some 4, [' ', ' ']⟩, ⟨some 3, ['i', ' ']⟩, ⟨some (-2), [' ', ' ']⟩], ⟨['|', '|'], [0, 1]⟩⟩

theorem steep_band_narrows :
    (steepBand.convert ⟨1⟩).result = .ok [⟨[0], .within (1 / 2) (11 / 2)⟩] ∧
      Spans (steepBand.column 0) 'i' ⟨1, 1⟩ ∧
      ((steepBand.ink 0 0).convert ⟨1⟩).result = .ok [⟨[0], .within (1 / 2) (9 / 2)⟩] ∧
      ((Subject.steady fun _ => .value 5).check 1 steepBand ()).halt? = none ∧
      ((Subject.steady fun _ => .value 5).check 1 (steepBand.ink 0 0) ()).halt? =
        some (.violated (.outside 0 5 (1 / 2) (9 / 2))) ∧
      ¬ steepBand.Implies 1 () (steepBand.ink 0 0) ∧
      ∃ down, steepBand.down = .ok down ∧ ¬ (down.cell 1).upper ≤ (down.cell 0).upper := by
  have passes : ((Subject.steady fun _ => .value 5).check 1 steepBand ()).halt? = none := by
    decide +kernel
  have halts : ((Subject.steady fun _ => .value 5).check 1 (steepBand.ink 0 0) ()).halt? =
      some (.violated (.outside 0 5 (1 / 2) (9 / 2))) := by decide +kernel
  refine ⟨by decide +kernel, ?_, by decide +kernel, passes, halts, fun implies => ?_,
    ⟨⟨4, 0⟩, ⟨3, 1⟩, [⟨-2, 2⟩]⟩, by decide +kernel, by decide +kernel⟩
  · exact (spans_iff_run _ _ (by decide) _).mpr ⟨by decide +kernel, by decide +kernel⟩
  · cases halts.symm.trans (implies _ passes)

def gentleBand : Sketch ℚ :=
  ⟨[⟨some 4, [' ', ' ']⟩, ⟨some 3, ['i', ' ']⟩, ⟨some 0, [' ', ' ']⟩], ⟨['|', '|'], [0, 1]⟩⟩

theorem gentle_band_grows :
    (gentleBand.convert ⟨2⟩).result = .ok [⟨[1 / 4], .within (3 / 2) (9 / 2)⟩] ∧
      Spans (gentleBand.column 0) 'i' ⟨1, 1⟩ ∧
      ((Subject.steady fun _ => .value (9 / 2)).check 2 gentleBand ()).halt? = none ∧
      ((Subject.steady fun _ => .value (9 / 2)).check 2 (gentleBand.ink 0 0) ()).halt? = none ∧
      ((Subject.steady fun _ => .value (9 / 2)).check 2 (gentleBand.ink 2 0) ()).halt? = none := by
  have converts : (gentleBand.convert ⟨2⟩).result =
      .ok [⟨[1 / 4], .within (3 / 2) (9 / 2)⟩] := by decide +kernel
  have spans : Spans (gentleBand.column 0) 'i' ⟨1, 1⟩ :=
    (spans_iff_run _ _ (by decide) _).mpr ⟨by decide +kernel, by decide +kernel⟩
  have passes : ((Subject.steady fun _ => .value (9 / 2)).check 2 gentleBand ()).halt? = none := by
    decide +kernel
  have isDown : gentleBand.down = .ok ⟨⟨4, 0⟩, ⟨3, 1⟩, [⟨0, 2⟩]⟩ := by decide +kernel
  obtain ⟨_, down, _, isDown', grows⟩ := taller_band_decided gentleBand 2 () _ converts
  cases isDown.symm.trans isDown'
  obtain ⟨below, above, _⟩ := grows 0 (by decide) ⟨1, 1⟩ spans
  obtain ⟨_, implies, _⟩ := above 0 rfl
  exact ⟨converts, spans, passes, implies (by decide +kernel) _ passes,
    (below (by decide)).2 _ passes⟩

end CurveSketch
