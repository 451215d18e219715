import CurveSketch.Proofs.Verdict
import Mathlib.Data.List.Flatten

/- Weakening a picture: columns are erased, and lines are redrawn as bands. The scales stay as they
   are and no column moves, so whatever conformed to the picture still does. -/
namespace CurveSketch
variable {σ α : Type}

/-- What is done to one column. -/
inductive Edit where
  | keep
  | erase
  | loosen
  deriving DecidableEq, Repr

namespace Edit

def glyph : Edit → Char → Char
  | .keep, g => g
  | .erase, _ => blank
  | .loosen, g => if g = Stroke.lineGlyph then Stroke.bandGlyph else g

def stroke : Edit → Stroke → Stroke
  | .loosen, .line run => .band run
  | _, s => s

theorem glyph_blank (e : Edit) : e.glyph blank = blank := by
  cases e <;> rfl

theorem stroke_run (e : Edit) (s : Stroke) : (e.stroke s).run = s.run := by
  cases e <;> cases s <;> rfl

theorem glyph_stroke {e : Edit} (drawn : e ≠ .erase) (s : Stroke) :
    e.glyph s.glyph = (e.stroke s).glyph := by
  cases e with
  | erase => exact absurd rfl drawn
  | keep => cases s <;> rfl
  | loosen => cases s <;> rfl

end Edit

def Row.edit (edits : Nat → Edit) (r : Row α) : Row α :=
  { r with glyphs := r.glyphs.mapIdx fun i g => (edits i).glyph g }

def Sketch.edit (edits : Nat → Edit) (s : Sketch α) : Sketch α :=
  { s with rows := s.rows.map (Row.edit edits) }

theorem Spans.map {c : Column} {glyph : Char} {run : Run} (spans : Spans c glyph run)
    {change : Char → Char} (same : change blank = blank) :
    Spans (c.map change) (change glyph) run where
  ordered := spans.ordered
  inside := by simpa using spans.inside
  glyphs := by
    intro row inside
    rw [List.length_map] at inside
    rw [List.getElem?_map, spans.glyphs row inside, Option.map_some, apply_ite change, same]

theorem shows_edit {c : Column} {s : Stroke} (shows : Shows c s) {e : Edit}
    (drawn : e ≠ .erase) : Shows (c.map e.glyph) (e.stroke s) := by
  have moved := Spans.map shows e.glyph_blank
  rwa [Edit.glyph_stroke drawn, ← Edit.stroke_run e s] at moved

theorem blank_erased (c : Column) : Column.isBlank (c.map Edit.erase.glyph) = true := by
  simp [Column.isBlank, Edit.glyph]

theorem blank_edit {c : Column} (empty : c.isBlank = true) (e : Edit) :
    Column.isBlank (c.map e.glyph) = true := by
  simp only [Column.isBlank, List.all_eq_true, beq_iff_eq, List.forall_mem_map] at empty ⊢
  intro g member
  rw [empty g member, e.glyph_blank]

theorem readable_edit {c : Column} (readable : Readable c) (e : Edit) :
    Readable (c.map e.glyph) := by
  rcases readable with empty | ⟨s, shows⟩
  · exact Or.inl (blank_edit empty e)
  · by_cases erased : e = .erase
    · subst erased
      exact Or.inl (blank_erased c)
    · exact Or.inr ⟨_, shows_edit shows erased⟩

theorem shown_edit {c : Column} (readable : Readable c) (e : Edit) :
    Column.isBlank (c.map e.glyph) = false ↔ c.isBlank = false ∧ e ≠ .erase := by
  rcases readable with empty | ⟨s, shows⟩
  · simp [blank_edit empty e, empty]
  · by_cases erased : e = .erase
    · subst erased
      simp [blank_erased]
    · simp [shows_not_blank (shows_edit shows erased), shows_not_blank shows, erased]

namespace Sketch

theorem edit_column (edits : Nat → Edit) (s : Sketch α) (i : Nat) :
    (s.edit edits).column i = (s.column i).map (edits i).glyph := by
  simp only [column, columnAt, edit, List.map_map, List.filterMap_map, List.map_filterMap]
  refine List.filterMap_congr fun row _ => ?_
  simp [Row.edit, List.getElem?_mapIdx]

variable [Scalar α]

theorem edit_down (edits : Nat → Edit) (s : Sketch α) : (s.edit edits).down = s.down := by
  simp [Sketch.down, edit, Row.edit, Function.comp_def]

theorem edit_scales (edits : Nat → Edit) (s : Sketch α) (options : Options) :
    (s.edit edits).scales options = s.scales options := by
  have widths : (s.edit edits).checkWidths = s.checkWidths := by
    simp [checkWidths, edit, Row.edit, Row.width, Ruler.width, Function.comp_def]
  rw [scales, scales, widths, edit_down]
  rfl

theorem edit_accepted (edits : Nat → Edit) {s : Sketch α} {samples : Nat}
    {cs : List (Constraint α)} (accepted : (s.convert ⟨samples⟩).result = .ok cs) :
    ∃ cs', ((s.edit edits).convert ⟨samples⟩).result = .ok cs' := by
  obtain ⟨across, down, scales, reads⟩ := (s.convert_ok_iff samples cs).mp accepted
  have scales' : (s.edit edits).scales ⟨samples⟩ = .ok (across, down) := by
    rw [edit_scales, scales]
  refine accepted_of_readable scales' fun i inside => ?_
  rw [edit_column]
  exact readable_edit (column_readable scales reads inside) (edits i)

def shownColumns (s : Sketch α) : List Nat :=
  (List.range s.ruler.marks.length).filter fun i => !(s.column i).isBlank

end Sketch

variable [Scalar α]

theorem samples_of_reads {across down : Scale α} {count i width : Nat} {column : Nat → Column}
    {cs : List (Constraint α)}
    (reads : Reads across down count i ((List.range' i width).map column) cs) :
    cs.map (·.samples) =
      ((List.range' i width).filter fun j => !(column j).isBlank).map (across.samples count) := by
  induction width generalizing i cs with
  | zero =>
    cases reads
    rfl
  | succ width ih =>
    rw [List.range'_succ, List.map_cons] at reads
    cases reads with
    | blank empty tail =>
      rw [List.range'_succ, List.filter_cons_of_neg (by simp [empty])]
      exact ih tail
    | shown shows tail =>
      rw [List.range'_succ, List.filter_cons_of_pos (by simp [shows_not_blank shows]),
        List.map_cons, List.map_cons, ih tail]

theorem Sketch.samples_of_accepted {s : Sketch α} {samples : Nat} {across : Scale α}
    {cs : List (Constraint α)} (accepted : (s.convert ⟨samples⟩).result = .ok cs)
    (isAcross : s.across = .ok across) :
    cs.map (·.samples) = s.shownColumns.map (across.samples samples) := by
  obtain ⟨across', down, scales, reads⟩ := (s.convert_ok_iff samples cs).mp accepted
  obtain ⟨_, _, isAcross', _⟩ := (s.scales_ok_iff samples across' down).mp scales
  cases isAcross.symm.trans isAcross'
  rw [columns_of_scales scales, List.range_eq_range'] at reads
  rw [shownColumns, List.range_eq_range']
  exact samples_of_reads reads

theorem Sketch.calls_of_accepted {s : Sketch α} {samples : Nat} {across : Scale α}
    {cs : List (Constraint α)} (accepted : (s.convert ⟨samples⟩).result = .ok cs)
    (isAcross : s.across = .ok across) (f : Subject σ α) (start : σ)
    (passes : (f.check samples s start).halt? = none) :
    (f.check samples s start).calls = s.shownColumns.flatMap (across.samples samples) := by
  rw [s.check_calls f start accepted passes, List.flatMap_def, List.flatMap_def,
    samples_of_accepted accepted isAcross]

theorem Sketch.shown_of_edit {s : Sketch α} {samples : Nat} {cs : List (Constraint α)}
    (accepted : (s.convert ⟨samples⟩).result = .ok cs) (edits : Nat → Edit) :
    (s.edit edits).shownColumns = s.shownColumns.filter (edits · ≠ .erase) := by
  obtain ⟨across, down, scales, reads⟩ := (s.convert_ok_iff samples cs).mp accepted
  rw [shownColumns, shownColumns, List.filter_filter]
  refine List.filter_congr fun i inside => ?_
  have shown := shown_edit (column_readable scales reads (List.mem_range.mp inside)) (edits i)
  rw [edit_column]
  rw [Bool.eq_iff_iff]
  simp [shown, and_comm]

theorem met_of_edit {e : Edit} {s : Stroke} {down : Scale α} {ys : List α}
    (met : (s.rule down).Met ys) : ((e.stroke s).rule down).Met ys := by
  cases e with
  | keep => exact met
  | erase => exact met
  | loosen =>
    cases s with
    | point row => exact met
    | band run => exact met
    | line run =>
      change (Stroke.outer down run).Met ys
      rw [Stroke.rule] at met
      split at met
      · exact met
      · exact ⟨met.1, trivial⟩

theorem column_holds_of_edit {f : α → Outcome α} {xs : List α} {down : Scale α} {c : Column}
    (readable : Readable c) (e : Edit) (holds : ColumnHolds f xs down c) :
    ColumnHolds f xs down (c.map e.glyph) := by
  rcases readable with empty | ⟨s, shows⟩
  · exact column_holds_of_blank (blank_edit empty e)
  · by_cases erased : e = .erase
    · subst erased
      exact column_holds_of_blank (blank_erased c)
    · obtain ⟨ys, outcomes, met⟩ := (column_holds_of_shown shows).mp holds
      exact (column_holds_of_shown (shows_edit shows erased)).mpr ⟨ys, outcomes, met_of_edit met⟩

theorem edit_passes {f : α → Outcome α} {s : Sketch α} {samples : Nat} {start : σ}
    (edits : Nat → Edit) (passes : ((Subject.steady f).check samples s start).halt? = none) :
    ((Subject.steady f).check samples (s.edit edits) start).halt? = none := by
  rw [steady_check_passes_iff] at passes ⊢
  obtain ⟨⟨cs, accepted⟩, holds⟩ := passes
  refine ⟨Sketch.edit_accepted edits accepted, fun across down isAcross isDown i inside => ?_⟩
  obtain ⟨_, _, scales, reads⟩ := (s.convert_ok_iff samples cs).mp accepted
  rw [Sketch.edit_down] at isDown
  rw [Sketch.edit_column]
  exact column_holds_of_edit (Sketch.column_readable scales reads inside) (edits i)
    (holds across down isAcross isDown i inside)

/-- A picture with some columns erased and some lines redrawn as bands is accepted where the
    picture was, and what conformed to the picture conforms to it. The function is called at the
    samples of the columns that are left, as before. -/
theorem conformity_survives_weakening (s : Sketch α) (edits : Nat → Edit) (samples : Nat)
    (f : α → Outcome α) (start : σ) :
    ∀ cs, (s.convert ⟨samples⟩).result = .ok cs →
      ∃ across, s.across = .ok across ∧
      (∃ cs', ((s.edit edits).convert ⟨samples⟩).result = .ok cs') ∧
      (s.edit edits).shownColumns = s.shownColumns.filter (edits · ≠ .erase) ∧
      (((Subject.steady f).check samples s start).halt? = none →
        ((Subject.steady f).check samples (s.edit edits) start).halt? = none ∧
        ((Subject.steady f).check samples s start).calls =
          s.shownColumns.flatMap (across.samples samples) ∧
        ((Subject.steady f).check samples (s.edit edits) start).calls =
          (s.edit edits).shownColumns.flatMap (across.samples samples) ∧
        ((Subject.steady f).check samples (s.edit edits) start).calls.Sublist
          ((Subject.steady f).check samples s start).calls) := by
  intro cs accepted
  obtain ⟨across, down, scales, _⟩ := (s.convert_ok_iff samples cs).mp accepted
  obtain ⟨_, _, isAcross, _⟩ := (s.scales_ok_iff samples across down).mp scales
  obtain ⟨cs', accepted'⟩ := Sketch.edit_accepted edits accepted
  have shown := Sketch.shown_of_edit accepted edits
  refine ⟨across, isAcross, ⟨cs', accepted'⟩, shown, fun passes => ?_⟩
  have passes' := edit_passes edits passes
  have calls := Sketch.calls_of_accepted accepted isAcross _ start passes
  have calls' := Sketch.calls_of_accepted accepted' isAcross _ start passes'
  refine ⟨passes', calls, calls', ?_⟩
  rw [calls, calls', shown]
  exact List.filter_sublist.flatMap (across.samples samples)

def jump : Sketch Float :=
  ⟨[⟨some 2, " IX".toList⟩, ⟨none, " I ".toList⟩, ⟨some 0, "XI ".toList⟩],
    ⟨"|||".toList, [0, 1, 2]⟩⟩

def jumpEdits : Nat → Edit
  | 0 => .erase
  | 1 => .loosen
  | _ => .keep

def jumping (x : Float) : Outcome Float := .value (if x < 1 then 0 else 2)

theorem jump_survives :
    (jump.convert ⟨4⟩).result = .ok [⟨[0.125, 0.375], .equals 0⟩,
        ⟨[0.625, 0.875, 1.125, 1.375], .spanning (-0.5) 2.5 0.5 1.5⟩,
        ⟨[1.625, 1.875], .equals 2⟩] ∧
      ((Subject.steady jumping).check 4 jump ()).halt? = none ∧
      ((Subject.steady jumping).check 4 (jump.edit jumpEdits) ()).halt? = none ∧
      ((Subject.steady jumping).check 4 (jump.edit jumpEdits) ()).calls =
        [0.625, 0.875, 1.125, 1.375, 1.625, 1.875] := by
  have converts : (jump.convert ⟨4⟩).result = .ok [⟨[0.125, 0.375], .equals 0⟩,
      ⟨[0.625, 0.875, 1.125, 1.375], .spanning (-0.5) 2.5 0.5 1.5⟩,
      ⟨[1.625, 1.875], .equals 2⟩] := by decide +kernel
  have isAcross : jump.across = .ok ⟨⟨0, 0⟩, ⟨1, 1⟩, [⟨2, 2⟩]⟩ := by decide +kernel
  have passes : ((Subject.steady jumping).check 4 jump ()).halt? = none := by decide +kernel
  obtain ⟨across, isAcross', _, _, survives⟩ :=
    conformity_survives_weakening jump jumpEdits 4 jumping () _ converts
  cases isAcross.symm.trans isAcross'
  obtain ⟨passes', _, calls, _⟩ := survives passes
  exact ⟨converts, passes, passes', calls.trans (by decide +kernel)⟩

end CurveSketch
