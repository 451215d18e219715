import CurveSketch.Sketch.Draft
import CurveSketch.Proofs.Acceptance

/- Drawing and reading back. Strokes are drawn one to a column, and the picture is drafted row by
   row; conversion finds the strokes again, each in its column and with the rule it stands for. -/
namespace CurveSketch
variable {α : Type}

namespace Stroke

/-- The stroke covers some rows, and the picture has them all. -/
def Fits (height : Nat) (s : Stroke) : Prop := s.run.top ≤ s.run.bottom ∧ s.run.bottom < height

instance (height : Nat) (s : Stroke) : Decidable (s.Fits height) :=
  inferInstanceAs (Decidable (_ ∧ _))

def glyphIn (row : Nat) (drawn? : Option Stroke) : Char := drawn?.elim blank (·.glyphAt row)

theorem draw_eq_map (height : Nat) (drawn? : Option Stroke) :
    draw height drawn? = (List.range height).map (glyphIn · drawn?) := by
  cases drawn? with
  | none => simp [draw, glyphIn, List.map_const']
  | some s => rfl

theorem draw_blank (height : Nat) : (draw height none).isBlank = true := by
  simp [draw, Column.isBlank]

theorem glyphAt_eq (row : Nat) (s : Stroke) :
    s.glyphAt row = if s.run.top ≤ row ∧ row ≤ s.run.bottom then s.glyph else blank := by
  cases s with
  | point r =>
    have same : r = row ↔ r ≤ row ∧ row ≤ r := by omega
    simp only [glyphAt, run, glyph, same]
    congr
  | band run =>
    simp only [glyphAt, covers, Bool.and_eq_true, decide_eq_true_eq]
    rfl
  | line run =>
    simp only [glyphAt, covers, Bool.and_eq_true, decide_eq_true_eq]
    rfl

theorem shows_draw {height : Nat} {s : Stroke} (fits : s.Fits height) :
    Shows (draw height (some s)) s where
  ordered := fits.1
  inside := by simpa [draw] using fits.2
  glyphs := by
    intro row inside
    have below : row < height := by simpa [draw] using inside
    simp [draw, below, glyphAt_eq]

/-- What a stroke asks for: the value of its row; the range of its rows; and for a line of more
    than two rows outputs on both sides of the rows between the outer ones. -/
def asks [Scalar α] (down : Scale α) : Stroke → Rule α
  | .point row => .equals (down.cell row).center
  | .band run => .within (down.cell run.bottom).lower (down.cell run.top).upper
  | .line run =>
    if run.top + 2 ≤ run.bottom then
      .spanning (down.cell run.bottom).lower (down.cell run.top).upper
        (down.cell (run.bottom - 1)).lower (down.cell (run.top + 1)).upper
    else .within (down.cell run.bottom).lower (down.cell run.top).upper

theorem rule_eq_asks [Scalar α] (down : Scale α) {s : Stroke} (ordered : s.run.top ≤ s.run.bottom) :
    s.rule down = s.asks down := by
  cases s with
  | point row => rfl
  | band run => rfl
  | line run =>
    have tall : run.height < thick ↔ ¬ run.top + 2 ≤ run.bottom := by
      simp only [Run.height, thick, Stroke.run] at ordered ⊢
      omega
    simp only [rule, asks, outer, tall, ite_not]

end Stroke

def drawnRows (labels : List (Option α)) (strokes : List (Option Stroke)) : List (Row α) :=
  labels.mapIdx fun row label? => ⟨label?, strokes.map (Stroke.glyphIn row)⟩

def Row.step : Row α → Draft.Step α
  | ⟨none, glyphs⟩ => .row glyphs
  | ⟨some label, glyphs⟩ => .labeledRow label glyphs

def drawingSteps (rows : List (Row α)) (ruler : Ruler α) (place : Nat) : List (Draft.Step α) :=
  (rows.take place).map Row.step ++ .ruler ruler.marks ruler.values ::
    (rows.drop place).map Row.step

namespace Draft

theorem apply_step (d : Draft α) (r : Row α) : d.apply r.step = { d with rows := d.rows ++ [r] } := by
  obtain ⟨label?, glyphs⟩ := r
  cases label? <;> rfl

theorem foldl_steps (d : Draft α) (rows : List (Row α)) :
    (rows.map Row.step).foldl apply d = { d with rows := d.rows ++ rows } := by
  induction rows generalizing d with
  | nil => simp
  | cons r rows ih => simp [apply_step, ih]

theorem build_drawing (rows : List (Row α)) (ruler : Ruler α) (place : Nat) :
    (ofSteps (drawingSteps rows ruler place)).build = .ok ⟨rows, ruler⟩ := by
  rw [ofSteps, drawingSteps, List.foldl_append, foldl_steps, List.foldl_cons, foldl_steps]
  simp [apply, empty, build]

end Draft

theorem drawnRows_labels (labels : List (Option α)) (strokes : List (Option Stroke)) :
    (drawnRows labels strokes).map (·.label?) = labels := by
  refine List.ext_getElem (by simp [drawnRows]) ?_
  intro row _ _
  simp [drawnRows]

theorem drawnRows_glyphs (labels : List (Option α)) (strokes : List (Option Stroke)) :
    (drawnRows labels strokes).map (·.glyphs) =
      (List.range labels.length).map fun row => strokes.map (Stroke.glyphIn row) := by
  refine List.ext_getElem (by simp [drawnRows]) ?_
  intro row _ _
  simp [drawnRows]

theorem drawn_column (labels : List (Option α)) {strokes : List (Option Stroke)} (ruler : Ruler α)
    {i : Nat} {drawn? : Option Stroke} (place : strokes[i]? = some drawn?) :
    Sketch.column ⟨drawnRows labels strokes, ruler⟩ i = Stroke.draw labels.length drawn? := by
  rw [Sketch.column, columnAt, drawnRows_glyphs, Stroke.draw_eq_map, List.filterMap_map]
  simp [place]

theorem drawn_widths (labels : List (Option α)) {strokes : List (Option Stroke)}
    {ruler : Ruler α} (wide : strokes.length = ruler.marks.length) :
    ∀ row ∈ drawnRows labels strokes, row.glyphs.length = ruler.marks.length := by
  intro row member
  obtain ⟨i, inside, rfl⟩ := List.mem_iff_getElem.mp member
  simpa [drawnRows] using wide

theorem drawn_columns {labels : List (Option α)} {strokes : List (Option Stroke)}
    {ruler : Ruler α} (labeled : labels ≠ []) (wide : strokes.length = ruler.marks.length) :
    Sketch.columns ⟨drawnRows labels strokes, ruler⟩ =
      strokes.map (Stroke.draw labels.length) := by
  have inhabited : drawnRows labels strokes ≠ [] := by
    simpa [drawnRows] using labeled
  rw [Sketch.columns_of_widths inhabited (drawn_widths labels wide), ← wide]
  refine List.ext_getElem (by simp) ?_
  intro i _ inside
  rw [List.length_map] at inside
  rw [List.getElem_map, List.getElem_range, List.getElem_map]
  exact drawn_column labels ruler (List.getElem?_eq_getElem inside)

variable [Scalar α]

def drawnConstraints (across down : Scale α) (count i : Nat) (strokes : List (Option Stroke)) :
    List (Constraint α) :=
  (strokes.zipIdx i).filterMap fun (drawn?, position) =>
    drawn?.map fun s => ⟨across.samples count position, s.asks down⟩

theorem reads_drawn (across down : Scale α) (count : Nat) {height : Nat} (i : Nat)
    {strokes : List (Option Stroke)} (fits : ∀ drawn? ∈ strokes, ∀ s ∈ drawn?, s.Fits height) :
    Reads across down count i (strokes.map (Stroke.draw height))
      (drawnConstraints across down count i strokes) := by
  induction strokes generalizing i with
  | nil => exact .nil i
  | cons drawn? strokes ih =>
    obtain ⟨first, later⟩ := List.forall_mem_cons.mp fits
    have tail := ih (i + 1) later
    cases drawn? with
    | none => exact .blank (Stroke.draw_blank height) tail
    | some s =>
      have fit := first s rfl
      have read := Reads.shown (Stroke.shows_draw fit) tail
      rwa [Stroke.rule_eq_asks down fit.1] at read

/-- Whatever is drawn in columns and drafted row by row is read back, column by column. -/
theorem drawing_reads_back (labels : List (Option α)) (strokes : List (Option Stroke))
    (ruler : Ruler α) (place samples : Nat) (across down : Scale α)
    (fits : ∀ drawn? ∈ strokes, ∀ s ∈ drawn?, s.Fits labels.length)
    (wide : strokes.length = ruler.width) (isDown : Axis.y.scale labels = .ok down)
    (isAcross : ruler.scale = .ok across) (some : 1 ≤ samples) :
    ∃ s, (Draft.ofSteps (drawingSteps (drawnRows labels strokes) ruler place)).build = .ok s ∧
      (s.convert ⟨samples⟩).result = .ok (drawnConstraints across down samples 0 strokes) := by
  refine ⟨⟨drawnRows labels strokes, ruler⟩, Draft.build_drawing _ ruler place, ?_⟩
  rw [Sketch.convert_ok_iff]
  refine ⟨across, down, ?_, ?_⟩
  · rw [Sketch.scales_ok_iff]
    refine ⟨some, ?_, isAcross, ?_⟩
    · have widths := (Sketch.widths_decided ⟨drawnRows labels strokes, ruler⟩).accepts.mpr
        (List.forall_mem_singleton.mpr (drawn_widths labels wide))
      obtain ⟨_, accepted⟩ := widths
      exact accepted
    · rw [Sketch.down, drawnRows_labels]
      exact isDown
  · have labeled : labels ≠ [] := by
      rintro rfl
      cases isDown
    rw [drawn_columns labeled wide]
    exact reads_drawn across down samples 0 fits

def stairLabels : List (Option Float) := [some 4, none, some 1, none, some 0]

def stairRuler : Ruler Float := ⟨"| |  |".toList, [0, 1, 4]⟩

def stairStrokes : List (Option Stroke) :=
  [some (.point 2), none, some (.band ⟨0, 1⟩), some (.line ⟨3, 4⟩), some (.line ⟨0, 4⟩),
    some (.line ⟨1, 3⟩)]

theorem stairs_read_back :
    stairRuler.scale = .ok ⟨⟨0, 0⟩, ⟨1, 2⟩, [⟨4, 5⟩]⟩ ∧
      Axis.y.scale stairLabels = .ok ⟨⟨4, 0⟩, ⟨1, 2⟩, [⟨0, 4⟩]⟩ ∧
      (∀ drawn? ∈ stairStrokes, ∀ s ∈ drawn?, s.Fits stairLabels.length) ∧
      ∃ s, (Draft.ofSteps
          (drawingSteps (drawnRows stairLabels stairStrokes) stairRuler 3)).build = .ok s ∧
        (s.convert ⟨2⟩).result = .ok
          [⟨[0.125], .equals 1⟩,
            ⟨[0.75, 1.25], .within 1.75 4.75⟩,
            ⟨[1.75, 2.25], .within (-0.25) 0.75⟩,
            ⟨[2.75, 3.25], .spanning (-0.25) 4.75 0.25 3.25⟩,
            ⟨[3.75], .spanning 0.25 3.25 0.75 1.25⟩] := by
  have isAcross : stairRuler.scale = .ok ⟨⟨0, 0⟩, ⟨1, 2⟩, [⟨4, 5⟩]⟩ := by decide +kernel
  have isDown : Axis.y.scale stairLabels = .ok ⟨⟨4, 0⟩, ⟨1, 2⟩, [⟨0, 4⟩]⟩ := by decide +kernel
  have fits : ∀ drawn? ∈ stairStrokes, ∀ s ∈ drawn?, s.Fits stairLabels.length := by decide
  obtain ⟨s, built, converted⟩ := drawing_reads_back stairLabels stairStrokes stairRuler 3 2 _ _
    fits (by decide +kernel) isDown isAcross (by decide)
  refine ⟨isAcross, isDown, fits, s, built, converted.trans ?_⟩
  exact congrArg Except.ok (by decide +kernel)

end CurveSketch
