import CurveSketch.Proofs.Weakening
import Mathlib.Data.List.Forall2

/- Thin lines. A line of one or two rows stands for the same rule as the band over its rows, so it
   may be redrawn as a band in any picture, accepted or not. A line of three rows or more may
   not: its constraint is the one that changes. -/
namespace CurveSketch
variable {σ α : Type}

def loosening (chosen : Nat → Bool) (i : Nat) : Edit := if chosen i then .loosen else .keep

namespace Trial

def silent (t : Trial σ α) : Trial σ α := { t with notes := [] }

end Trial

theorem map_keep (c : Column) : c.map Edit.keep.glyph = c := by
  change c.map id = c
  rw [List.map_id]

theorem range_split {i width : Nat} (inside : i < width) :
    List.range width = List.range i ++ i :: List.range' (i + 1) (width - (i + 1)) := by
  have whole := @List.range'_append_1 0 i (width - (i + 1) + 1)
  rw [List.range'_succ, Nat.zero_add, show i + (width - (i + 1) + 1) = width by omega] at whole
  rw [List.range_eq_range', List.range_eq_range', whole]

variable [Scalar α]

/-- The same column, or two strokes that stand for the same rule. -/
inductive ReadAlike (down : Scale α) : Column → Column → Prop where
  | same (c : Column) : ReadAlike down c c
  | redrawn {c c' : Column} {s s' : Stroke} (shows : Shows c s) (shows' : Shows c' s')
      (rule : s'.rule down = s.rule down) : ReadAlike down c c'

theorem thin_alike {c : Column} {run : Run} (spans : Spans c 'I' run) (thin : run.height < 3)
    (down : Scale α) : ReadAlike down c (c.map Edit.loosen.glyph) := by
  have shows : Shows c (.line run) := spans
  have low : run.height < Stroke.thick := thin
  have rule : (Stroke.band run).rule down = (Stroke.line run).rule down := by
    rw [Stroke.rule, Stroke.rule, if_pos low]
  exact .redrawn shows (shows_edit shows (by simp)) rule

section
variable {across down : Scale α} {count i : Nat}

theorem ofColumns_alike {columns columns' : List Column}
    (alike : List.Forall₂ (ReadAlike down) columns columns') (i : Nat) :
    (Conversion.ofColumns Reading.standard across down count i columns').result =
      (Conversion.ofColumns Reading.standard across down count i columns).result := by
  induction alike generalizing i with
  | nil => rfl
  | @cons c c' rest rest' head later ih =>
    cases head with
    | same =>
      cases read : c.interpret (Reading.standard (α := α)) with
      | error fault => rw [Conversion.ofColumns, Conversion.ofColumns, read]
      | ok meaning? => rw [ofColumns_read read, ofColumns_read read, ih (i + 1)]
    | redrawn shows shows' rule =>
      rw [ofColumns_shown _ shows, ofColumns_shown _ shows', ih (i + 1), rule]

theorem reads_redrawn {before after : List Column} {c : Column} {s : Stroke}
    {cs : List (Constraint α)} (reads : Reads across down count i (before ++ c :: after) cs)
    (shows : Shows c s) :
    ∃ earlier later, cs = earlier ++ ⟨across.samples count (i + before.length), s.rule down⟩ ::
        later ∧ ∀ c' s', Shows c' s' → Reads across down count i (before ++ c' :: after)
          (earlier ++ ⟨across.samples count (i + before.length), s'.rule down⟩ :: later) := by
  induction before generalizing i cs with
  | nil =>
    cases reads with
    | blank empty tail =>
      rw [shows_not_blank shows] at empty
      cases empty
    | shown shows₀ tail =>
      cases shows_unique shows shows₀
      exact ⟨[], _, rfl, fun c' s' shows' => .shown shows' tail⟩
  | cons d before ih =>
    have place : i + (d :: before).length = i + 1 + before.length := by
      rw [List.length_cons]
      omega
    rw [place]
    cases reads with
    | blank empty tail =>
      obtain ⟨earlier, later, rfl, redrawn⟩ := ih tail
      exact ⟨earlier, later, rfl, fun c' s' shows' => .blank empty (redrawn c' s' shows')⟩
    | shown shows₀ tail =>
      obtain ⟨earlier, later, rfl, redrawn⟩ := ih tail
      exact ⟨_ :: earlier, later, rfl, fun c' s' shows' => .shown shows₀ (redrawn c' s' shows')⟩

end

namespace Sketch

theorem loosened_alike {s : Sketch α} {samples : Nat} {across down : Scale α}
    {chosen : Nat → Bool} (scales : s.scales ⟨samples⟩ = .ok (across, down))
    (thin : ∀ i < s.ruler.marks.length, chosen i = true →
      ∃ run, Spans (s.column i) 'I' run ∧ run.height < 3) :
    List.Forall₂ (ReadAlike down) s.columns (s.edit (loosening chosen)).columns := by
  have scales' : (s.edit (loosening chosen)).scales ⟨samples⟩ = .ok (across, down) := by
    rw [edit_scales, scales]
  have ruler : (s.edit (loosening chosen)).ruler = s.ruler := rfl
  rw [columns_of_scales scales, columns_of_scales scales', ruler, List.forall₂_map_left_iff,
    List.forall₂_map_right_iff, List.forall₂_same]
  intro i member
  rw [edit_column, loosening]
  split
  · rename_i isChosen
    obtain ⟨run, spans, low⟩ := thin i (List.mem_range.mp member) isChosen
    exact thin_alike spans low down
  · rw [map_keep]
    exact .same _

theorem loosened_result (s : Sketch α) (samples : Nat) {chosen : Nat → Bool}
    (thin : ∀ i < s.ruler.marks.length, chosen i = true →
      ∃ run, Spans (s.column i) 'I' run ∧ run.height < 3) :
    ((s.edit (loosening chosen)).convert ⟨samples⟩).result = (s.convert ⟨samples⟩).result := by
  rw [convert_result, convert_result, edit_scales]
  cases scales : s.scales ⟨samples⟩ with
  | error fault => rfl
  | ok pair => exact ofColumns_alike (loosened_alike scales thin) 0

theorem columns_split {s : Sketch α} {samples i : Nat} {across down : Scale α}
    (scales : s.scales ⟨samples⟩ = .ok (across, down)) (inside : i < s.ruler.marks.length) :
    s.columns = (List.range i).map s.column ++
      s.column i :: (List.range' (i + 1) (s.ruler.marks.length - (i + 1))).map s.column := by
  rw [columns_of_scales scales, range_split inside, List.map_append, List.map_cons]

theorem loosened_columns {s : Sketch α} {samples i : Nat} {across down : Scale α}
    (scales : s.scales ⟨samples⟩ = .ok (across, down)) (inside : i < s.ruler.marks.length) :
    (s.edit (loosening (· == i))).columns = (List.range i).map s.column ++
      (s.column i).map Edit.loosen.glyph ::
        (List.range' (i + 1) (s.ruler.marks.length - (i + 1))).map s.column := by
  have scales' : (s.edit (loosening (· == i))).scales ⟨samples⟩ = .ok (across, down) := by
    rw [edit_scales, scales]
  have here : (s.edit (loosening (· == i))).column i = (s.column i).map Edit.loosen.glyph := by
    rw [edit_column, loosening, if_pos (by simp)]
  have other (j : Nat) (apart : j ≠ i) : (s.edit (loosening (· == i))).column j = s.column j := by
    rw [edit_column, loosening, if_neg (by simpa using apart), map_keep]
  rw [columns_split scales' inside, here]
  have left : (List.range i).map (s.edit (loosening (· == i))).column =
      (List.range i).map s.column := by
    refine List.map_congr_left fun j member => other j ?_
    have before := List.mem_range.mp member
    omega
  have right : (List.range' (i + 1) (s.ruler.marks.length - (i + 1))).map
      (s.edit (loosening (· == i))).column =
        (List.range' (i + 1) (s.ruler.marks.length - (i + 1))).map s.column := by
    refine List.map_congr_left fun j member => other j ?_
    have after := (List.mem_range'_1.mp member).1
    omega
  rw [left]
  exact congrArg (fun rest => _ ++ _ :: rest) right

theorem loosened_thick {s : Sketch α} {samples i : Nat} {across down : Scale α}
    {cs : List (Constraint α)} (scales : s.scales ⟨samples⟩ = .ok (across, down))
    (reads : Reads across down samples 0 s.columns cs) (inside : i < s.ruler.marks.length)
    {run : Run} (spans : Spans (s.column i) 'I' run) (thick : 3 ≤ run.height) :
    ∃ before after, cs = before ++ ⟨across.samples samples i,
        .spanning (down.cell run.bottom).lower (down.cell run.top).upper
          (down.cell (run.bottom - 1)).lower (down.cell (run.top + 1)).upper⟩ :: after ∧
      ((s.edit (loosening (· == i))).convert ⟨samples⟩).result =
        .ok (before ++ ⟨across.samples samples i,
          .within (down.cell run.bottom).lower (down.cell run.top).upper⟩ :: after) := by
  have shows : Shows (s.column i) (.line run) := spans
  have shows' : Shows ((s.column i).map Edit.loosen.glyph) (.band run) :=
    shows_edit shows (by simp)
  rw [columns_split scales inside] at reads
  obtain ⟨before, after, rfl, redrawn⟩ := reads_redrawn reads shows
  have reads' := redrawn _ _ shows'
  rw [List.length_map, List.length_range, Nat.zero_add] at reads' ⊢
  rw [← loosened_columns scales inside] at reads'
  refine ⟨before, after, ?_, ?_⟩
  · have tall : ¬ run.height < Stroke.thick := by simpa [Stroke.thick] using thick
    rw [Stroke.rule, if_neg tall]
  · refine (convert_ok_iff _ samples _).mpr ⟨across, down, ?_, reads'⟩
    rw [edit_scales, scales]

end Sketch

theorem silent_trial_of_result {s s' : Sketch α} {options : Options}
    (same : (s'.convert options).result = (s.convert options).result) (f : Probe σ α)
    (start : σ) : (s'.trial options f start).silent = (s.trial options f start).silent := by
  cases result : (s.convert options).result with
  | error fault =>
    rw [trial_of_fault f start result, trial_of_fault f start (same.trans result)]
    rfl
  | ok cs =>
    rw [trial_of_constraints f start result, trial_of_constraints f start (same.trans result)]
    rfl

/-- In any sketch of doubles, lines of one or two rows may be redrawn as bands: the same
    constraints or the same fault come of it, and every form of check makes the same calls and ends
    the same way. In an accepted sketch a line of three rows or more may not: the rule of its
    column, and no other, loses its inner band. -/
theorem thin_lines_read_as_bands (s : Sketch Float) (samples : Nat) :
    (∀ chosen : Nat → Bool, (∀ i < s.ruler.marks.length, chosen i = true →
        ∃ run, Spans (s.column i) 'I' run ∧ run.height < 3) →
      ((s.edit (loosening chosen)).convert ⟨samples⟩).result = (s.convert ⟨samples⟩).result ∧
      ∀ (σ : Type) (f : Subject σ Float) (start : σ),
        (f.check samples (s.edit (loosening chosen)) start).silent =
            (f.check samples s start).silent ∧
          (f.checkFallible samples (s.edit (loosening chosen)) start).silent =
            (f.checkFallible samples s start).silent ∧
          (f.demand samples (s.edit (loosening chosen)) start).silent =
            (f.demand samples s start).silent) ∧
    ∀ cs, (s.convert ⟨samples⟩).result = .ok cs →
      ∃ across down, s.across = .ok across ∧ s.down = .ok down ∧
        ∀ i < s.ruler.marks.length, ∀ run, Spans (s.column i) 'I' run → 3 ≤ run.height →
          ∃ before after, cs = before ++ ⟨across.samples samples i,
              .spanning (down.cell run.bottom).lower (down.cell run.top).upper
                (down.cell (run.bottom - 1)).lower (down.cell (run.top + 1)).upper⟩ :: after ∧
            ((s.edit (loosening (· == i))).convert ⟨samples⟩).result =
              .ok (before ++ ⟨across.samples samples i,
                .within (down.cell run.bottom).lower (down.cell run.top).upper⟩ :: after) ∧
            ((s.edit (loosening (· == i))).convert ⟨samples⟩).result ≠
              (s.convert ⟨samples⟩).result := by
  constructor
  · intro chosen thin
    have same := s.loosened_result samples thin
    refine ⟨same, fun σ f start => ?_⟩
    have caught := silent_trial_of_result same f.catching start
    have reported := silent_trial_of_result same f.reporting start
    exact ⟨caught, reported, congrArg Trial.crashing caught⟩
  · intro cs accepted
    obtain ⟨across, down, scales, reads⟩ := (s.convert_ok_iff samples cs).mp accepted
    obtain ⟨_, _, isAcross, isDown⟩ := (s.scales_ok_iff samples across down).mp scales
    refine ⟨across, down, isAcross, isDown, fun i inside run spans thick => ?_⟩
    obtain ⟨before, after, rfl, loosened⟩ :=
      Sketch.loosened_thick scales reads inside spans thick
    refine ⟨before, after, rfl, loosened, ?_⟩
    rw [loosened, accepted]
    intro same
    have rules := List.append_cancel_left (Except.ok.inj same)
    simp at rules

def posts : Sketch Float :=
  ⟨[⟨some 7, " IX".toList⟩, ⟨none, " I ".toList⟩, ⟨some 1, "II ".toList⟩, ⟨some 0, "I  ".toList⟩],
    ⟨"| |".toList, [0, 1]⟩⟩

def smudged : Sketch Float :=
  ⟨[⟨some 1, " é".toList⟩, ⟨some 0, "I ".toList⟩], ⟨"||".toList, [0, 1]⟩⟩

theorem posts_loosened :
    (posts.convert ⟨1⟩).result = .ok [⟨[0], .within (-0.5) 1.5⟩,
        ⟨[0.5], .spanning 0.5 8.5 2.5 5.5⟩, ⟨[1], .equals 7⟩] ∧
      ((posts.edit (loosening (· == 0))).convert ⟨1⟩).result = (posts.convert ⟨1⟩).result ∧
      ((posts.edit (loosening (· == 1))).convert ⟨1⟩).result ≠ (posts.convert ⟨1⟩).result ∧
      ((smudged.edit (loosening (· == 0))).convert ⟨1⟩).result =
        .error (.unreadable ['é', ' ']) := by
  have converts : (posts.convert ⟨1⟩).result = .ok [⟨[0], .within (-0.5) 1.5⟩,
      ⟨[0.5], .spanning 0.5 8.5 2.5 5.5⟩, ⟨[1], .equals 7⟩] := by decide +kernel
  have refused : (smudged.convert ⟨1⟩).result = .error (.unreadable ['é', ' ']) := by
    decide +kernel
  have short : Spans (posts.column 0) 'I' ⟨2, 3⟩ :=
    (spans_iff_run _ _ (by decide) _).mpr ⟨by decide +kernel, by decide +kernel⟩
  have long : Spans (posts.column 1) 'I' ⟨0, 2⟩ :=
    (spans_iff_run _ _ (by decide) _).mpr ⟨by decide +kernel, by decide +kernel⟩
  have dot : Spans (smudged.column 0) 'I' ⟨1, 1⟩ :=
    (spans_iff_run _ _ (by decide) _).mpr ⟨by decide +kernel, by decide +kernel⟩
  obtain ⟨thin, thick⟩ := thin_lines_read_as_bands posts 1
  obtain ⟨beside, _⟩ := thin_lines_read_as_bands smudged 1
  obtain ⟨across, down, _, _, changes⟩ := thick _ converts
  obtain ⟨_, _, _, _, differs⟩ := changes 1 (by decide) ⟨0, 2⟩ long (by decide)
  refine ⟨converts, (thin (· == 0) ?_).1, differs, ((beside (· == 0) ?_).1).trans refused⟩
  · intro i _ isChosen
    cases eq_of_beq isChosen
    exact ⟨_, short, by decide⟩
  · intro i _ isChosen
    cases eq_of_beq isChosen
    exact ⟨_, dot, by decide⟩

end CurveSketch
