import CurveSketch.Proofs.GuardedScales

/- What an accepted axis has read. A tick stands under every mark that is not blank and beside every
   label, the values are those of the ruler and of the rows in their order, and nothing else is a
   tick. Which marks are drawn makes no difference, and one axis knows nothing of the other. -/
namespace CurveSketch
variable {α : Type}

theorem mem_markPlaces (marks : List Char) (i : Nat) :
    i ∈ markPlaces 0 marks ↔ ∃ mark, marks[i]? = some mark ∧ mark ≠ blank := by
  rw [markPlaces, List.mem_filterMap]
  constructor
  · rintro ⟨⟨mark, place⟩, stands, kept⟩
    obtain ⟨visible, rfl⟩ : mark ≠ blank ∧ place = i := by simpa using kept
    exact ⟨mark, List.mk_mem_zipIdx_iff_getElem?.mp stands, visible⟩
  · rintro ⟨mark, there, visible⟩
    exact ⟨(mark, i), List.mk_mem_zipIdx_iff_getElem?.mpr there, if_neg visible⟩

theorem markPlaces_sublist (start : Nat) (marks : List Char) :
    (markPlaces start marks).Sublist (List.range' start marks.length) := by
  induction marks generalizing start with
  | nil => exact List.Sublist.refl []
  | cons mark marks ih =>
    have later := ih (start + 1)
    rw [markPlaces] at later
    rw [markPlaces, List.zipIdx_cons, List.length_cons, List.range'_succ, List.filterMap_cons]
    by_cases isBlank : mark = blank
    · simpa only [isBlank, if_true] using later.cons start
    · simpa only [isBlank, if_false] using later.cons_cons start

theorem pairMarks_of_blanks {marks marks' : List Char}
    (blanks : marks'.map (· == blank) = marks.map (· == blank)) (values : List α) :
    pairMarks marks' values = pairMarks marks values := by
  induction marks generalizing marks' values with
  | nil => rw [List.map_eq_nil_iff.mp blanks]
  | cons mark marks ih =>
    obtain ⟨mark', marks', rfl, first, later⟩ := List.map_eq_cons_iff.mp blanks
    have same : mark' = blank ↔ mark = blank := by
      rw [← beq_iff_eq, first, beq_iff_eq]
    rw [pairMarks, pairMarks, ih later, ih later]
    exact if_congr same rfl rfl

theorem Ruler.tickCount_of_blanks {r r' : Ruler α}
    (blanks : r'.marks.map (· == blank) = r.marks.map (· == blank)) :
    r'.tickCount = r.tickCount := by
  have counted (marks : List Char) :
      marks.countP (· != blank) = (marks.map (· == blank)).countP (! ·) :=
    (List.countP_map ..).symm
  rw [tickCount, tickCount, counted, blanks, ← counted]

theorem ticks_ext {ticks ticks' : List (Tick α)}
    (positions : ticks.map (·.position) = ticks'.map (·.position))
    (values : ticks.map (·.value) = ticks'.map (·.value)) : ticks = ticks' := by
  have parts (ticks : List (Tick α)) :
      List.zipWith Tick.mk (ticks.map (·.value)) (ticks.map (·.position)) = ticks := by
    simp [List.zipWith_map]
  rw [← parts ticks, positions, values, parts]

theorem Scale.two_ticks (s : Scale α) : 2 ≤ s.toList.length := by
  simp [toList]

variable [Scalar α]

theorem axis_scale_iff_laid (axis : Axis) (slots : List (Option α)) (s : Scale α) :
    axis.scale slots = .ok s ↔ s.toList = ticksFrom 0 slots ∧
      s.Laid (fun a b => axis.inOrder a b = true) slots.length := by
  constructor
  · intro accepted
    exact ⟨((axis_scale_ok_iff axis slots s).mp accepted).1, axis_scale_laid accepted⟩
  · intro valid
    obtain ⟨ticks, laid⟩ := valid
    have closed : closedEnds slots = true := by
      rw [closedEnds, Bool.and_eq_true, first_place_iff, last_place_iff, ← ticks]
      constructor
      · simp [Scale.toList, laid.first]
      · simp [List.getLast?_map, s.last_mem, ← laid.last]
    exact (axis_scale_ok_iff axis slots s).mpr ⟨ticks, closed, laid.ordered⟩

namespace Ruler

theorem scale_of_blanks {r r' : Ruler α}
    (blanks : r'.marks.map (· == blank) = r.marks.map (· == blank))
    (values : r'.values = r.values) : r'.scale = r.scale := by
  have slots : r'.slots = r.slots := by
    rw [Ruler.slots, values]
    exact pairMarks_of_blanks blanks r.values
  rw [Ruler.scale, tickCount_of_blanks blanks, values, slots]
  rfl

theorem scale_iff_laid (r : Ruler α) (across : Scale α) :
    r.scale = .ok across ↔ across.Laid (fun a b => a < b) r.width ∧
      across.toList.map (·.position) = markPlaces 0 r.marks ∧
      across.toList.map (·.value) = r.values := by
  have size : r.slots.length = r.width := pairMarks_length r.marks r.values
  rw [r.scale_ok_iff, axis_scale_iff_laid, size]
  simp only [Axis.inOrder, decide_eq_true_eq]
  constructor
  · intro accepted
    obtain ⟨paired, ticks, laid⟩ := accepted
    refine ⟨laid, ?_, ?_⟩
    · rw [ticks]
      exact (markPlaces_eq 0 paired).symm
    · rw [ticks, ticksFrom_values]
      exact pairMarks_values paired
  · intro valid
    obtain ⟨laid, positions, values⟩ := valid
    have paired : r.tickCount = r.values.length := by
      rw [← values, List.length_map, tickCount, ← markPlaces_length 0, ← positions,
        List.length_map]
    refine ⟨paired, ticks_ext ?_ ?_, laid⟩
    · rw [positions]
      exact markPlaces_eq 0 paired
    · rw [values, ticksFrom_values]
      exact (pairMarks_values paired).symm

end Ruler

namespace Sketch

theorem across_iff_laid (s : Sketch α) (across : Scale α) :
    s.across = .ok across ↔ across.Laid (fun a b => a < b) s.ruler.width ∧
      (∀ i, i ∈ across.toList.map (·.position) ↔
        ∃ mark, s.ruler.marks[i]? = some mark ∧ mark ≠ blank) ∧
      across.toList.map (·.value) = s.ruler.values := by
  refine (s.ruler.scale_iff_laid across).trans
    (and_congr_right fun laid => and_congr_left fun _ => ?_)
  have ascending : (across.toList.map (·.position)).Pairwise (· < ·) :=
    List.pairwise_map.mpr (List.isChain_iff_pairwise.mp laid.ascending)
  have ascending' : (markPlaces 0 s.ruler.marks).Pairwise (· < ·) :=
    List.Pairwise.sublist (markPlaces_sublist 0 s.ruler.marks) List.pairwise_lt_range'
  simp only [← mem_markPlaces]
  constructor
  · intro positions i
    rw [positions]
  · intro members
    exact ascending.eq_of_mem_iff ascending' members

theorem down_iff_laid (s : Sketch α) (down : Scale α) :
    s.down = .ok down ↔ down.Laid (fun a b => zero < a - b) s.rows.length ∧
      ∀ t, t ∈ down.toList ↔
        ∃ row, s.rows[t.position]? = some row ∧ row.label? = some t.value := by
  have labeled (t : Tick α) : t ∈ ticksFrom 0 (s.rows.map (·.label?)) ↔
      ∃ row, s.rows[t.position]? = some row ∧ row.label? = some t.value := by
    rw [mem_ticksFrom]
    simp [List.getElem?_map]
  rw [Sketch.down, axis_scale_iff_laid, List.length_map, and_comm]
  simp only [Axis.inOrder, decide_eq_true_eq, ← labeled]
  refine and_congr_right fun laid => ?_
  constructor
  · intro ticks t
    rw [ticks]
  · intro members
    have ascending := List.isChain_iff_pairwise.mp laid.ascending
    exact ascending.eq_of_mem_iff (ticksFrom_ascending 0 _) members

theorem down_values {s : Sketch α} {down : Scale α} (isDown : s.down = .ok down) :
    down.toList.map (·.value) = s.labels := by
  obtain ⟨ticks, _⟩ := (axis_scale_iff_laid .y _ down).mp isDown
  rw [ticks, ticksFrom_values, List.filterMap_map]
  rfl

/-- A ruler makes exactly the scale that has a tick under each of its marks and for each of its
    values, from the first position to the last, every value above the one before. Rows make exactly
    the scale that has a tick at each of their labels, from the first row to the last, every value
    below the one before. What either axis comes to, be it a scale or a fault, does not change with
    the glyphs of the marks or with anything that belongs to the other axis. -/
theorem axes_read_whole (s : Sketch α) :
    (∀ across, s.across = .ok across ↔
      across.Laid (fun a b => a < b) s.ruler.width ∧ 2 ≤ across.toList.length ∧
      (∀ i, i ∈ across.toList.map (·.position) ↔
        ∃ mark, s.ruler.marks[i]? = some mark ∧ mark ≠ blank) ∧
      across.toList.map (·.value) = s.ruler.values) ∧
    (∀ down, s.down = .ok down ↔
      down.Laid (fun a b => zero < a - b) s.rows.length ∧ 2 ≤ down.toList.length ∧
      (∀ t, t ∈ down.toList ↔
        ∃ row, s.rows[t.position]? = some row ∧ row.label? = some t.value) ∧
      down.toList.map (·.value) = s.labels) ∧
    ∀ s' : Sketch α,
      (s'.ruler.marks.map (· == blank) = s.ruler.marks.map (· == blank) →
        s'.ruler.values = s.ruler.values → s'.across = s.across) ∧
      (s'.rows.map (·.label?) = s.rows.map (·.label?) → s'.down = s.down) := by
  refine ⟨fun across => ?_, fun down => ⟨?_, ?_⟩, fun s' => ⟨?_, ?_⟩⟩
  · simp only [s.across_iff_laid across, across.two_ticks, true_and]
  · intro isDown
    obtain ⟨laid, labeled⟩ := (s.down_iff_laid down).mp isDown
    exact ⟨laid, down.two_ticks, labeled, down_values isDown⟩
  · intro valid
    obtain ⟨laid, _, labeled, _⟩ := valid
    exact (s.down_iff_laid down).mpr ⟨laid, labeled⟩
  · intro blanks values
    exact Ruler.scale_of_blanks blanks values
  · intro labels
    rw [down, down, labels]

def signpost : Sketch Float :=
  ⟨[⟨some 4, "  X    ".toList⟩, ⟨none, "XX XX  ".toList⟩, ⟨some 1, "       ".toList⟩,
    ⟨none, "     X ".toList⟩, ⟨some 0, "      X".toList⟩], ⟨"é · | 𝄞".toList, [0, 1, 3, 8]⟩⟩

def bareRuler : Sketch Float := ⟨[], ⟨"| + ñ |".toList, [0, 1, 3, 8]⟩⟩

def bareRows : Sketch Float :=
  ⟨[⟨some 4, []⟩, ⟨none, []⟩, ⟨some 1, []⟩, ⟨none, []⟩, ⟨some 0, []⟩], ⟨[], []⟩⟩

theorem signpost_read_whole : ∃ across down, signpost.across = .ok across ∧
    signpost.down = .ok down ∧ across.last.position + 1 = 7 ∧
    6 ∈ across.toList.map (·.position) ∧ 5 ∉ across.toList.map (·.position) ∧
    across.toList.map (·.value) = [0, 1, 3, 8] ∧ down.toList.map (·.value) = [4, 1, 0] ∧
    ⟨1, 2⟩ ∈ down.toList ∧ bareRuler.across = .ok across ∧ bareRows.down = .ok down := by
  have isAcross : signpost.across = .ok ⟨⟨0, 0⟩, ⟨1, 2⟩, [⟨3, 4⟩, ⟨8, 6⟩]⟩ := by decide +kernel
  have isDown : signpost.down = .ok ⟨⟨4, 0⟩, ⟨1, 2⟩, [⟨0, 4⟩]⟩ := by decide +kernel
  obtain ⟨columns, rows, alone⟩ := signpost.axes_read_whole
  obtain ⟨laid, _, marked, values⟩ := (columns _).mp isAcross
  obtain ⟨_, _, labeled, labels⟩ := (rows _).mp isDown
  refine ⟨_, _, isAcross, isDown, laid.last, ?_, ?_, values, labels, ?_, ?_, ?_⟩
  · exact (marked 6).mpr ⟨'𝄞', rfl, by decide⟩
  · intro member
    obtain ⟨mark, there, visible⟩ := (marked 5).mp member
    exact visible (Option.some.inj there).symm
  · exact (labeled ⟨1, 2⟩).mpr ⟨_, rfl, rfl⟩
  · exact ((alone bareRuler).1 (by decide) rfl).trans isAcross
  · exact ((alone bareRows).2 rfl).trans isDown

end Sketch

end CurveSketch
