import CurveSketch.Proofs.Drawing

/- Columns as words. The columns with a meaning form a regular language: blanks, then one point or
   any number of one other glyph, then blanks again. A word of the language can be taken apart in
   one way only, and drawing what was found spells the word again. -/
namespace CurveSketch
variable {α : Type}

def block (before : Nat) (glyph : Char) (height after : Nat) : Column :=
  List.replicate before blank ++ (List.replicate height glyph ++ List.replicate after blank)

/-- A point stands alone, bands and lines are of any height. -/
inductive Writable : Char → Nat → Prop where
  | point : Writable 'X' 1
  | band {height : Nat} (some : 1 ≤ height) : Writable 'i' height
  | line {height : Nat} (some : 1 ≤ height) : Writable 'I' height

def Written (c : Column) : Prop :=
  ∃ before glyph height after, Writable glyph height ∧ c = block before glyph height after

/-- What a column states, given the scale of the rows and the samples of the column. -/
def Column.stated [Scalar α] (c : Column) (down : Scale α) (samples : List α) :
    Except (Fault α) (Option (Constraint α)) :=
  (c.interpret Reading.standard).map (Option.map (·.constraint samples down))

theorem block_length (before : Nat) (glyph : Char) (height after : Nat) :
    (block before glyph height after).length = before + height + after := by
  simp [block, Nat.add_assoc]

theorem block_spans {before : Nat} {glyph : Char} {height after : Nat} (some : 1 ≤ height) :
    Spans (block before glyph height after) glyph ⟨before, before + height - 1⟩ where
  ordered := by
    simp only
    omega
  inside := by
    rw [block_length]
    simp only
    omega
  glyphs := by
    intro row inside
    rw [block_length] at inside
    rw [block, List.getElem?_append, List.getElem?_append, List.length_replicate,
      List.length_replicate]
    simp only [List.getElem?_replicate]
    split_ifs <;> first | rfl | omega

theorem Spans.unique {c d : Column} {glyph : Char} {run : Run} (spans : Spans c glyph run)
    (other : Spans d glyph run) (length : c.length = d.length) : c = d := by
  refine List.ext_getElem? fun row => ?_
  by_cases inside : row < c.length
  · rw [spans.glyphs row inside, other.glyphs row (length ▸ inside)]
  · rw [List.getElem?_eq_none (by omega), List.getElem?_eq_none (by omega)]

theorem shows_iff_draw (c : Column) (s : Stroke) :
    Shows c s ↔ s.Fits c.length ∧ Stroke.draw c.length (some s) = c := by
  constructor
  · intro shows
    have fits : s.Fits c.length := ⟨shows.ordered, shows.inside⟩
    refine ⟨fits, ?_⟩
    exact Spans.unique (Stroke.shows_draw fits) shows (by simp [Stroke.draw])
  · intro drawn
    obtain ⟨fits, same⟩ := drawn
    have shows := Stroke.shows_draw fits
    rwa [same] at shows

theorem Spans.eq_block {c : Column} {glyph : Char} {run : Run} (spans : Spans c glyph run) :
    c = block run.top glyph run.height (c.length - (run.bottom + 1)) := by
  have ordered := spans.ordered
  have inside := spans.inside
  have same : (⟨run.top, run.top + run.height - 1⟩ : Run) = run := by
    obtain ⟨top, bottom⟩ := run
    simp only [Run.height, Run.mk.injEq, true_and] at ordered ⊢
    omega
  have other : Spans (block run.top glyph run.height (c.length - (run.bottom + 1))) glyph
      ⟨run.top, run.top + run.height - 1⟩ := block_spans (by simp [Run.height])
  rw [same] at other
  refine spans.unique other ?_
  rw [block_length, Run.height]
  omega

theorem Stroke.writable (s : Stroke) : Writable s.glyph s.run.height := by
  cases s with
  | point row =>
    have single : (Stroke.point row).run.height = 1 := by simp [Stroke.run, Run.height]
    rw [single]
    exact .point
  | band run => exact .band (by simp [Stroke.run, Run.height])
  | line run => exact .line (by simp [Stroke.run, Run.height])

theorem written_iff_shows (c : Column) : Written c ↔ ∃ s, Shows c s := by
  constructor
  · intro written
    obtain ⟨before, glyph, height, after, writable, rfl⟩ := written
    cases writable with
    | point => exact ⟨.point before, block_spans (le_refl 1)⟩
    | band some => exact ⟨.band ⟨before, before + height - 1⟩, block_spans some⟩
    | line some => exact ⟨.line ⟨before, before + height - 1⟩, block_spans some⟩
  · intro shown
    obtain ⟨s, shows⟩ := shown
    exact ⟨_, _, _, _, s.writable, shows.eq_block⟩

theorem isBlank_iff_all (c : Column) : c.isBlank = true ↔ ∀ g ∈ c, g = ' ' := by
  simp [Column.isBlank, blank]

section
variable [Scalar α]

theorem stated_blank {c : Column} (empty : c.isBlank = true) (down : Scale α) (samples : List α) :
    c.stated down samples = .ok none := by
  rw [Column.stated, interpret_blank empty]
  rfl

theorem stated_shown {c : Column} {s : Stroke} (shows : Shows c s) (down : Scale α)
    (samples : List α) : c.stated down samples = .ok (some ⟨samples, s.asks down⟩) := by
  rw [Column.stated, interpret_shown shows, ← Stroke.rule_eq_asks down shows.ordered]
  rfl

theorem stated_unreadable {c : Column} (unreadable : ¬ Readable c) (down : Scale α)
    (samples : List α) : c.stated down samples = .error (.unreadable c) := by
  rw [Column.stated, interpret_unreadable unreadable]
  rfl

theorem accepting_count (c : Column) :
    (Reading.standard (α := α)).countP (fun r => (r.read? c).isSome) =
      (Stroke.recognised c).length := by
  have answers := congrArg List.length (standard_meanings (α := α) c)
  rw [List.length_filterMap_eq_countP, List.length_map] at answers
  simpa only [Reading.meaning?, Option.isSome_map] using answers

theorem stated_cases (c : Column) (down : Scale α) (samples : List α) :
    (c.isBlank = true ∧ ¬ Written c ∧ c.stated down samples = .ok none) ∨
      (∃ s, c.isBlank = false ∧ Shows c s ∧
        c.stated down samples = .ok (some ⟨samples, s.asks down⟩)) ∨
      (c.isBlank = false ∧ ¬ Written c ∧ c.stated down samples = .error (.unreadable c)) := by
  by_cases written : Written c
  · obtain ⟨s, shows⟩ := (written_iff_shows c).mp written
    exact Or.inr (Or.inl ⟨s, shows_not_blank shows, shows, stated_shown shows down samples⟩)
  · have unshown : ¬ ∃ s, Shows c s := by rwa [← written_iff_shows]
    cases empty : c.isBlank with
    | true => exact Or.inl ⟨rfl, written, stated_blank empty down samples⟩
    | false =>
      have unreadable : ¬ Readable c := by
        simp only [Readable, empty, Bool.false_eq_true, false_or]
        exact unshown
      exact Or.inr (Or.inr ⟨rfl, written, stated_unreadable unreadable down samples⟩)

/-- Blank columns say nothing, written ones have exactly one reading, and all others are reported
    as unreadable. What is drawn in a written column is unique and spells the column again. -/
theorem column_words_decided (c : Column) (down : Scale α) (samples : List α) :
    (c.stated down samples = .ok none ↔ ∀ g ∈ c, g = ' ') ∧
      ((∃ k, c.stated down samples = .ok (some k)) ↔ Written c) ∧
      (c.stated down samples = .error (.unreadable c) ↔ (¬ ∀ g ∈ c, g = ' ') ∧ ¬ Written c) ∧
      (∀ readings d, c.stated down samples ≠ .error (.ambiguous readings d)) ∧
      ∀ k, c.stated down samples = .ok (some k) →
        (Reading.standard (α := α)).countP (fun r => (r.read? c).isSome) = 1 ∧
        (∃! s : Stroke, s.Fits c.length ∧ Stroke.draw c.length (some s) = c) ∧
        ∀ s : Stroke, s.Fits c.length → Stroke.draw c.length (some s) = c →
          k = ⟨samples, s.asks down⟩ := by
  rw [← isBlank_iff_all]
  rcases stated_cases c down samples with
    ⟨empty, unwritten, answer⟩ | ⟨s, ink, shows, answer⟩ | ⟨ink, unwritten, answer⟩
  · simp [answer, empty, unwritten]
  · have written : Written c := (written_iff_shows c).mpr ⟨s, shows⟩
    have drawn (s' : Stroke) (fits : s'.Fits c.length)
        (same : Stroke.draw c.length (some s') = c) : s' = s :=
      shows_unique ((shows_iff_draw c s').mpr ⟨fits, same⟩) shows
    refine ⟨by simp [answer, ink], by simp [answer, written], by simp [answer, written],
      by simp [answer], ?_⟩
    intro k stated
    rw [answer] at stated
    cases stated
    refine ⟨?_, ⟨s, (shows_iff_draw c s).mp shows, fun s' found => drawn s' found.1 found.2⟩, ?_⟩
    · rw [accepting_count, recognised_of_shows shows]
      rfl
    · intro s' fits same
      rw [drawn s' fits same]
  · simp [answer, ink, unwritten]

end
end CurveSketch
