import CurveSketch.Proofs.Acceptance
import CurveSketch.Proofs.Midpoints

/- Centers, in exact rationals. They pass through the ticks, go by equal steps from tick to tick and
   never turn back, whichever way the axis runs and also beyond its ends. So what an exact value is
   expected to be is ordered by the rows. -/
namespace CurveSketch

theorem Scale.center_between {s : Scale ℚ}
    (ascending : s.toList.IsChain fun t u => t.position < u.position) {t u : Tick ℚ}
    (neighbours : [t, u] <:+: s.toList) {i : ℕ} (left : t.position ≤ i) (right : i < u.position) :
    (s.cell (i + 1)).center - (s.cell i).center =
      (u.value - t.value) / (u.position - t.position) := by
  rw [center_next ascending i, segment_between ascending neighbours left right, add_sub_cancel_left,
    Segment.step_rat, Nat.cast_sub (left.trans right.le)]

section
variable {α : Type} [Scalar α]

/-- As many columns left of column `i` say something; so many constraints come before its own. -/
def Sketch.rank (s : Sketch α) (i : ℕ) : ℕ := (s.columns.take i).countP fun c => !c.isBlank

theorem reads_at {across down : Scale α} {count start k : ℕ} {columns : List Column}
    {cs : List (Constraint α)} (reads : Reads across down count start columns cs) {c : Column}
    (place : columns[k]? = some c) {stroke : Stroke} (shows : Shows c stroke) :
    cs[(columns.take k).countP fun c => !c.isBlank]? =
      some ⟨across.samples count (start + k), stroke.rule down⟩ := by
  induction reads generalizing k with
  | nil i => simp at place
  | @blank i c' rest cs blank tail ih =>
    cases k with
    | zero =>
      cases place
      exact absurd blank (by simp [shows_not_blank shows])
    | succ k =>
      have later := ih place
      rw [List.take_succ_cons, List.countP_cons_of_neg (by simp [blank]), later,
        Nat.add_right_comm i 1 k, Nat.add_assoc]
  | @shown i c' stroke' rest cs shows' tail ih =>
    cases k with
    | zero =>
      cases place
      cases shows_unique shows shows'
      rfl
    | succ k =>
      have later := ih place
      rw [List.take_succ_cons, List.countP_cons_of_pos (by simp [shows_not_blank shows']),
        List.getElem?_cons_succ, later, Nat.add_right_comm i 1 k, Nat.add_assoc]

theorem Sketch.constraint_at {s : Sketch α} {samples : ℕ} {across down : Scale α}
    {cs : List (Constraint α)} (scales : s.scales ⟨samples⟩ = .ok (across, down))
    (reads : Reads across down samples 0 s.columns cs) {i : ℕ} (inside : i < s.ruler.marks.length)
    {stroke : Stroke} (shows : Shows (s.column i) stroke) :
    cs[s.rank i]? = some ⟨across.samples samples i, stroke.rule down⟩ := by
  have place : s.columns[i]? = some (s.column i) := by
    simp [columns_of_scales scales, inside]
  have read := reads_at reads place shows
  rw [Nat.zero_add] at read
  exact read

end

/-- Whichever way an axis runs, the centers of its positions take the values of its ticks, the last
    one included, go the way of the axis at every position, before the first tick and behind the
    last too, and change by equal steps between two neighbouring ticks. So in every accepted picture
    the higher of two points expects the larger value, and the column further right has the
    larger center. -/
theorem centers_follow_ticks :
    (∀ (axis : Axis) (s : Scale ℚ), (s.toList.IsChain fun t u => t.position < u.position) →
      (s.toList.IsChain fun t u => axis.inOrder t.value u.value = true) →
        (∀ t ∈ s.toList, (s.cell t.position).center = t.value) ∧
        (∀ i j, i < j → axis.inOrder (s.cell i).center (s.cell j).center = true) ∧
        ∀ t u, [t, u] <:+: s.toList → ∀ i, t.position ≤ i → i < u.position →
          (s.cell (i + 1)).center - (s.cell i).center =
            (u.value - t.value) / (u.position - t.position)) ∧
    ∀ (s : Sketch ℚ) (samples : ℕ) cs, (s.convert ⟨samples⟩).result = .ok cs →
      ∃ across down, s.across = .ok across ∧ s.down = .ok down ∧
        (∀ i j, i < j → (across.cell i).center < (across.cell j).center) ∧
        ∀ i < s.ruler.marks.length, ∀ j < s.ruler.marks.length, ∀ row row',
          Spans (s.column i) 'X' ⟨row, row⟩ → Spans (s.column j) 'X' ⟨row', row'⟩ → row < row' →
            ∃ y y', cs[s.rank i]? = some ⟨across.samples samples i, .equals y⟩ ∧
              cs[s.rank j]? = some ⟨across.samples samples j, .equals y'⟩ ∧ y' < y := by
  refine ⟨fun axis s ascending ordered => ⟨?_, ?_, ?_⟩, fun s samples cs accepted => ?_⟩
  · intro t member
    exact Scale.center_of_tick ascending member
  · intro i j before
    exact Scale.center_inOrder ascending ordered before
  · intro t u neighbours i left right
    exact Scale.center_between ascending neighbours left right
  · obtain ⟨across, down, scales, reads⟩ := (s.convert_ok_iff samples cs).mp accepted
    obtain ⟨_, _, isAcross, isDown⟩ := (s.scales_ok_iff samples across down).mp scales
    have acrossLaid := Sketch.across_laid isAcross
    have downLaid := axis_scale_laid isDown
    refine ⟨across, down, isAcross, isDown, fun i j before => ?_, ?_⟩
    · exact Scale.center_strictMono acrossLaid.ascending acrossLaid.ordered before
    · intro i inside j inside' row row' point point' higher
      have shown : Shows (s.column i) (.point row) := point
      have shown' : Shows (s.column j) (.point row') := point'
      have first := Sketch.constraint_at scales reads inside shown
      have second := Sketch.constraint_at scales reads inside' shown'
      have way := Scale.center_inOrder downLaid.ascending downLaid.ordered higher
      simp only [Axis.inOrder, decide_eq_true_eq, rat_order] at way
      exact ⟨_, _, first, second, way⟩

def ridge : Sketch ℚ :=
  ⟨[⟨some 20, "   ".toList⟩, ⟨none, "  X".toList⟩, ⟨some 0, "   ".toList⟩, ⟨none, "X  ".toList⟩,
    ⟨some (-4), "   ".toList⟩], ⟨"|||".toList, [0, 1, 5]⟩⟩

theorem ridge_centers : ∃ across down, ridge.across = .ok across ∧ ridge.down = .ok down ∧
    (down.cell 4).center = -4 ∧ (down.cell 9).center < (down.cell 7).center ∧
    (down.cell 2).center - (down.cell 1).center = -10 ∧
    (across.cell 0).center < (across.cell 2).center ∧
    ∃ cs y y', (ridge.convert ⟨1⟩).result = .ok cs ∧ cs[1]? = some ⟨[5], .equals y⟩ ∧
      cs[0]? = some ⟨[0], .equals y'⟩ ∧ y' < y := by
  have isAcross : ridge.across = .ok ⟨⟨0, 0⟩, ⟨1, 1⟩, [⟨5, 2⟩]⟩ := by decide +kernel
  have isDown : ridge.down = .ok ⟨⟨20, 0⟩, ⟨0, 2⟩, [⟨-4, 4⟩]⟩ := by decide +kernel
  have converts : (ridge.convert ⟨1⟩).result = .ok [⟨[0], .equals (-2)⟩, ⟨[5], .equals 10⟩] := by
    decide +kernel
  have low : Spans (ridge.column 0) 'X' ⟨3, 3⟩ :=
    (spans_iff_run _ _ (by decide) _).mpr ⟨by decide +kernel, by decide +kernel⟩
  have high : Spans (ridge.column 2) 'X' ⟨1, 1⟩ :=
    (spans_iff_run _ _ (by decide) _).mpr ⟨by decide +kernel, by decide +kernel⟩
  obtain ⟨scales, sketches⟩ := centers_follow_ticks
  obtain ⟨ticks, falls, steps⟩ := scales .y ⟨⟨20, 0⟩, ⟨0, 2⟩, [⟨-4, 4⟩]⟩
    (by simp [Scale.toList]) (by simp [Scale.toList, Axis.inOrder_iff, Axis.sign])
  obtain ⟨across, down, isAcross', isDown', columns, points⟩ := sketches ridge 1 _ converts
  cases isAcross.symm.trans isAcross'
  cases isDown.symm.trans isDown'
  obtain ⟨y, y', first, second, above⟩ :=
    points 2 (by decide) 0 (by decide) 1 3 high low (by decide)
  have ranks : ridge.rank 2 = 1 ∧ ridge.rank 0 = 0 := by decide +kernel
  have samples : Scale.samples ⟨⟨0, 0⟩, ⟨1, 1⟩, [⟨5, 2⟩]⟩ 1 2 = [(5 : ℚ)] ∧
      Scale.samples ⟨⟨0, 0⟩, ⟨1, 1⟩, [⟨5, 2⟩]⟩ 1 0 = [(0 : ℚ)] := by decide +kernel
  rw [ranks.1, samples.1] at first
  rw [ranks.2, samples.2] at second
  refine ⟨_, _, isAcross, isDown, ticks ⟨-4, 4⟩ (by simp [Scale.toList]), ?_, ?_,
    columns 0 2 (by decide), _, y, y', converts, first, second, above⟩
  · have way := falls 7 9 (by decide)
    rwa [Axis.inOrder, decide_eq_true_eq, rat_order] at way
  · exact (steps ⟨20, 0⟩ ⟨0, 2⟩ ⟨[], _, rfl⟩ 1 (by decide) (by decide)).trans (by norm_num)

end CurveSketch
