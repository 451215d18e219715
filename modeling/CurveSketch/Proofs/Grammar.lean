import CurveSketch.Reading
import CurveSketch.Proofs.Runs

/- The grammar of columns: a column is blank, or shows exactly one stroke, or has no meaning.
   The standard readings never compete. -/
namespace CurveSketch
variable {α : Type}

namespace Stroke

def glyph : Stroke → Char
  | .point _ => pointGlyph
  | .band _ => bandGlyph
  | .line _ => lineGlyph

def run : Stroke → Run
  | .point row => ⟨row, row⟩
  | .band run => run
  | .line run => run

def reading : Stroke → String
  | .point _ => "exact_value"
  | .band _ => "vertical_range_loose"
  | .line _ => "vertical_range_strict"

theorem glyph_visible (s : Stroke) : s.glyph ≠ blank := by
  cases s <;> simp [Stroke.glyph, pointGlyph, bandGlyph, lineGlyph, blank]

theorem ext_glyph_run {s s' : Stroke} (glyph : s.glyph = s'.glyph) (run : s.run = s'.run) :
    s = s' := by
  cases s <;> cases s' <;>
    simp_all [Stroke.glyph, Stroke.run, pointGlyph, bandGlyph, lineGlyph]

end Stroke

/-- What a column must look like to show a stroke. -/
def Shows (c : Column) (s : Stroke) : Prop := Spans c s.glyph s.run

/-- A column that some reading can make sense of, or that says nothing. -/
def Readable (c : Column) : Prop := c.isBlank = true ∨ ∃ s, Shows c s

theorem shows_not_blank {c : Column} {s : Stroke} (shows : Shows c s) : c.isBlank = false :=
  Spans.not_blank shows s.glyph_visible

theorem shows_unique {c : Column} {s s' : Stroke} (shows : Shows c s) (shows' : Shows c s') :
    s = s' := by
  have glyph := Spans.glyph_unique shows shows' s.glyph_visible
  have found := ((spans_iff_run c _ s.glyph_visible _).mp shows).2
  have found' := ((spans_iff_run c _ s'.glyph_visible _).mp shows').2
  rw [glyph] at found
  exact Stroke.ext_glyph_run glyph (Option.some.inj (found.symm.trans found'))

theorem point_iff_shows (c : Column) (s : Stroke) :
    Stroke.point? c = some s ↔ ∃ row, s = .point row ∧ Shows c s := by
  have single (row : Nat) : c.positions Stroke.pointGlyph = [row] ↔
      c.run? Stroke.pointGlyph = some ⟨row, row⟩ := by
    simp [Column.run_iff_positions, Run.height, List.range'_succ]
  have shown (row : Nat) : Shows c (.point row) ↔
      c.onlyBlankAnd Stroke.pointGlyph = true ∧ c.positions Stroke.pointGlyph = [row] := by
    rw [single]
    exact spans_iff_run c _ (Stroke.glyph_visible (.point row)) _
  unfold Stroke.point?
  split
  · rename_i only
    split
    · rename_i row found
      rw [Option.some.injEq]
      constructor
      · rintro rfl
        exact ⟨row, rfl, (shown row).mpr ⟨only, found⟩⟩
      · intro shown
        obtain ⟨row', rfl, shows⟩ := shown
        have found' := ((shown row').mp shows).2
        rw [found] at found'
        exact congrArg Stroke.point (List.cons.inj found').1
    · rename_i several
      simp only [reduceCtorEq, false_iff]
      intro shown
      obtain ⟨row, rfl, shows⟩ := shown
      exact several row ((shown row).mp shows).2
  · rename_i foreign
    simp only [reduceCtorEq, false_iff]
    intro shown
    obtain ⟨row, rfl, shows⟩ := shown
    exact foreign ((shown row).mp shows).1

theorem run_iff_shows (c : Column) (make : Run → Stroke) (glyph : Char)
    (form : ∀ run, (make run).glyph = glyph ∧ (make run).run = run) (s : Stroke) :
    (if c.onlyBlankAnd glyph then (c.run? glyph).map make else none) = some s ↔
      ∃ run, s = make run ∧ Shows c s := by
  have shown (run : Run) : Shows c (make run) ↔
      c.onlyBlankAnd glyph = true ∧ c.run? glyph = some run := by
    have visible := (make run).glyph_visible
    rw [(form run).1] at visible
    rw [Shows, (form run).1, (form run).2]
    exact spans_iff_run c glyph visible run
  constructor
  · intro read
    split at read
    · rename_i only
      obtain ⟨run, found, rfl⟩ := Option.map_eq_some_iff.mp read
      exact ⟨run, rfl, (shown run).mpr ⟨only, found⟩⟩
    · simp at read
  · intro shown
    obtain ⟨run, rfl, shows⟩ := shown
    obtain ⟨only, found⟩ := (shown run).mp shows
    simp [only, found]

theorem band_iff_shows (c : Column) (s : Stroke) :
    Stroke.band? c = some s ↔ ∃ run, s = .band run ∧ Shows c s :=
  run_iff_shows c .band Stroke.bandGlyph (fun _ => ⟨rfl, rfl⟩) s

theorem line_iff_shows (c : Column) (s : Stroke) :
    Stroke.line? c = some s ↔ ∃ run, s = .line run ∧ Shows c s :=
  run_iff_shows c .line Stroke.lineGlyph (fun _ => ⟨rfl, rfl⟩) s

theorem silent_on_other_form {ι : Type} {make : ι → Stroke} {found : Option Stroke} {c : Column}
    {s : Stroke} (recognises : ∀ s, found = some s ↔ ∃ i, s = make i ∧ Shows c s)
    (shows : Shows c s) (other : ∀ i, s ≠ make i) : found = none := by
  rw [Option.eq_none_iff_forall_ne_some]
  intro s' isFound
  obtain ⟨i, rfl, shows'⟩ := (recognises s').mp isFound
  exact other i (shows_unique shows shows')

def Stroke.recognised (c : Column) : List Stroke :=
  [Stroke.point? c, Stroke.line? c, Stroke.band? c].filterMap id

theorem recognised_of_shows {c : Column} {s : Stroke} (shows : Shows c s) :
    Stroke.recognised c = [s] := by
  have point := point_iff_shows c
  have line := line_iff_shows c
  have band := band_iff_shows c
  cases s with
  | point row =>
    have noLine := silent_on_other_form line shows (by simp)
    have noBand := silent_on_other_form band shows (by simp)
    simp [Stroke.recognised, (point _).mpr ⟨row, rfl, shows⟩, noLine, noBand]
  | band run =>
    have noPoint := silent_on_other_form point shows (by simp)
    have noLine := silent_on_other_form line shows (by simp)
    simp [Stroke.recognised, (band _).mpr ⟨run, rfl, shows⟩, noPoint, noLine]
  | line run =>
    have noPoint := silent_on_other_form point shows (by simp)
    have noBand := silent_on_other_form band shows (by simp)
    simp [Stroke.recognised, (line _).mpr ⟨run, rfl, shows⟩, noPoint, noBand]

theorem shows_of_recognised {c : Column} {s : Stroke} (member : s ∈ Stroke.recognised c) :
    Shows c s := by
  simp only [Stroke.recognised, List.mem_filterMap, List.mem_cons, List.not_mem_nil, or_false,
    id] at member
  obtain ⟨answer, origin, rfl⟩ := member
  rcases origin with point | line | band
  · exact ((point_iff_shows c s).mp point.symm).choose_spec.2
  · exact ((line_iff_shows c s).mp line.symm).choose_spec.2
  · exact ((band_iff_shows c s).mp band.symm).choose_spec.2

section
variable [Scalar α]

def Stroke.meaning (s : Stroke) : Meaning α :=
  ⟨s.reading, fun scale samples => ⟨samples, s.rule scale⟩⟩

theorem meaning_of_stroke {id : String} {stroke? : Column → Option Stroke} {c : Column}
    (named : ∀ s, stroke? c = some s → s.reading = id) :
    (Reading.ofStroke id stroke?).meaning? c = (stroke? c).map (Stroke.meaning (α := α)) := by
  simp only [Reading.ofStroke, Reading.meaning?, Option.map_map]
  refine Option.map_congr fun s isFound => ?_
  simp [Stroke.meaning, named s isFound]

theorem standard_meanings (c : Column) :
    (Reading.standard (α := α)).filterMap (·.meaning? c) =
      (Stroke.recognised c).map Stroke.meaning := by
  have point : (Reading.exactValue (α := α)).meaning? c = (Stroke.point? c).map Stroke.meaning := by
    refine meaning_of_stroke fun s isFound => ?_
    obtain ⟨row, rfl, _⟩ := (point_iff_shows c s).mp isFound
    rfl
  have line : (Reading.strictRange (α := α)).meaning? c = (Stroke.line? c).map Stroke.meaning := by
    refine meaning_of_stroke fun s isFound => ?_
    obtain ⟨run, rfl, _⟩ := (line_iff_shows c s).mp isFound
    rfl
  have band : (Reading.looseRange (α := α)).meaning? c = (Stroke.band? c).map Stroke.meaning := by
    refine meaning_of_stroke fun s isFound => ?_
    obtain ⟨run, rfl, _⟩ := (band_iff_shows c s).mp isFound
    rfl
  have answers : (Reading.standard (α := α)).filterMap (·.meaning? c) =
      ([Stroke.point? c, Stroke.line? c, Stroke.band? c].map
        (Option.map Stroke.meaning)).filterMap id := by
    simp only [Reading.standard, List.filterMap_cons, List.filterMap_nil, point, line, band,
      List.map_cons, List.map_nil, id]
  rw [answers, Stroke.recognised, List.filterMap_map, List.map_filterMap]
  rfl

theorem interpret_shown {c : Column} {s : Stroke} (shows : Shows c s) :
    c.interpret (Reading.standard (α := α)) = .ok (some s.meaning) := by
  rw [Column.interpret, shows_not_blank shows, standard_meanings, recognised_of_shows shows]
  rfl

theorem interpret_unreadable {c : Column} (unreadable : ¬ Readable c) :
    c.interpret (Reading.standard (α := α)) = .error (.unreadable c) := by
  have nothing : Stroke.recognised c = [] :=
    List.eq_nil_iff_forall_not_mem.mpr fun s member =>
      unreadable (Or.inr ⟨s, shows_of_recognised member⟩)
  have ink : c.isBlank = false := by
    rw [← Bool.not_eq_true]
    exact fun blank => unreadable (Or.inl blank)
  rw [Column.interpret, ink, standard_meanings, nothing]
  rfl

end

theorem interpret_blank {c : Column} (blank : c.isBlank = true) (readings : List (Reading α)) :
    c.interpret readings = .ok none := by
  simp [Column.interpret, blank]

end CurveSketch
