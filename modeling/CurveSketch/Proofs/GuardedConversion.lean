import CurveSketch.Proofs.GuardedScales

/- Conversion under guard: runs are searched, columns are read and rules are built with a guard at
   every step that might not be possible. No guard ever stops it, and it gives what conversion
   gives. -/
namespace CurveSketch
variable {α : Type}

namespace Guarded

def unbroken : List Nat → Guarded α Bool
  | a :: b :: rest => do
    let distance ← minus b a
    if distance = 1 then unbroken (b :: rest) else return false
  | _ => return true

def run (c : Column) (glyph : Char) : Guarded α (Option Run) :=
  match (c.positions glyph).head?, (c.positions glyph).getLast? with
  | some top, some bottom => do
    let whole ← unbroken (c.positions glyph)
    return if whole then some ⟨top, bottom⟩ else none
  | _, _ => return none

theorem unbroken_eq {row : Nat} {rows : List Nat} (ascending : (row :: rows).Pairwise (· < ·)) :
    (unbroken (row :: rows) : Guarded α Bool) = .ok (Column.endOfChain? row rows).isSome ∧
      ∀ last, Column.endOfChain? row rows = some last → (row :: rows).getLast? = some last := by
  induction rows generalizing row with
  | nil => simp [unbroken, Column.endOfChain?, pure, Except.pure]
  | cons next rows ih =>
    obtain ⟨above, later⟩ := List.pairwise_cons.mp ascending
    have before : row < next := above next (by simp)
    obtain ⟨whole, stop⟩ := ih later
    rw [unbroken, minus_of_le before.le, ok_bind, Column.endOfChain?]
    by_cases successor : next = row + 1
    · rw [if_pos (by omega), if_pos successor]
      refine ⟨whole, ?_⟩
      intro last chain
      rw [List.getLast?_cons_cons]
      exact stop last chain
    · rw [if_neg (by omega), if_neg successor]
      exact ⟨rfl, by simp⟩

theorem run_eq (c : Column) (glyph : Char) : run c glyph = (.ok (c.run? glyph) : Guarded α _) := by
  unfold run Column.run?
  have ascending := Column.positions_ascending c glyph
  cases rows : c.positions glyph with
  | nil => rfl
  | cons top rest =>
    rw [rows] at ascending
    obtain ⟨whole, stop⟩ := unbroken_eq (α := α) ascending
    have isLast : (top :: rest).getLast? = some (rest.getLastD top) := by
      rw [List.getLast?_cons, List.getLastD_eq_getLast?]
    simp only [List.head?_cons, isLast, whole, ok_bind]
    cases chain : Column.endOfChain? top rest with
    | none => rfl
    | some last =>
      have same := stop last chain
      rw [isLast, Option.some.injEq] at same
      rw [same]
      rfl

end Guarded

/-- A reading under guard: whether a column is written in its glyphs, and the constraint of such a
    column in a picture of some height. -/
structure GuardedReading (α : Type) where
  id : String
  accepts : Column → Guarded α Bool
  build : List α → Column → List (Tick α) → Nat → Guarded α (Constraint α)

namespace GuardedReading
variable [Scalar α]
open Guarded

def exactValue : GuardedReading α where
  id := "exact_value"
  accepts c := return c.onlyBlankAnd Stroke.pointGlyph && c.countP (· == Stroke.pointGlyph) == 1
  build samples c ticks height := do
    let row ← present (c.positions Stroke.pointGlyph).head?
    let here ← cell ticks height row
    return ⟨samples, .equals here.center⟩

def acceptsRun (glyph : Char) (c : Column) : Guarded α Bool :=
  if c.onlyBlankAnd glyph then do
    let found ← run c glyph
    return found.isSome
  else return false

def outer (samples : List α) (ticks : List (Tick α)) (height : Nat) (r : Run) :
    Guarded α (Constraint α) := do
  let low ← cell ticks height r.bottom
  let high ← cell ticks height r.top
  return ⟨samples, .within low.lower high.upper⟩

def looseRange : GuardedReading α where
  id := "vertical_range_loose"
  accepts := acceptsRun Stroke.bandGlyph
  build samples c ticks height := do
    let found ← run c Stroke.bandGlyph
    let r ← present found
    outer samples ticks height r

def strictRange : GuardedReading α where
  id := "vertical_range_strict"
  accepts := acceptsRun Stroke.lineGlyph
  build samples c ticks height := do
    let found ← run c Stroke.lineGlyph
    let r ← present found
    let between ← minus r.bottom r.top
    let rows ← plus height between 1
    if rows < Stroke.thick then outer samples ticks height r
    else do
      let low ← cell ticks height r.bottom
      let high ← cell ticks height r.top
      let above ← minus r.bottom 1
      let innerLow ← cell ticks height above
      let below ← plus height r.top 1
      let innerHigh ← cell ticks height below
      return ⟨samples, .spanning low.lower high.upper innerLow.lower innerHigh.upper⟩

def standard : List (GuardedReading α) := [exactValue, strictRange, looseRange]

def accepting (c : Column) : List (GuardedReading α) → Guarded α (List (GuardedReading α))
  | [] => return []
  | r :: rest => do
    let yes ← r.accepts c
    let others ← accepting c rest
    return if yes then r :: others else others

def interpret (readings : List (GuardedReading α)) (samples : List α) (c : Column)
    (ticks : List (Tick α)) (height : Nat) : Guarded α (Option (Constraint α)) :=
  if c.isBlank then return none
  else do
    match ← accepting c readings with
    | [] => .error (.fault (.unreadable c))
    | [r] => return some (← r.build samples c ticks height)
    | several => .error (.fault (.ambiguous (several.map (·.id)) c))

end GuardedReading

variable [Scalar α]

namespace Guarded

def columns (across down : List (Tick α)) (width height count : Nat) :
    Nat → List Column → Guarded α (List (Constraint α))
  | _, [] => return []
  | i, c :: rest => do
    let here ← samples across width count i
    let constraint? ← GuardedReading.interpret GuardedReading.standard here c down height
    let later ← columns across down width height count (i + 1) rest
    return constraint?.toList ++ later

end Guarded

def Sketch.ticksGuarded (s : Sketch α) (options : Options) :
    Guarded α (List (Tick α) × List (Tick α)) := do
  Guarded.ofResult options.validate
  Guarded.ofResult s.checkWidths
  let across ← Guarded.across s.ruler
  let down ← Guarded.down s.rows
  return (across, down)

def Sketch.convertGuarded (s : Sketch α) (options : Options) : Guarded α (List (Constraint α)) := do
  let ticks ← s.ticksGuarded options
  Guarded.columns ticks.1 ticks.2 s.ruler.width s.rows.length options.samples 0 s.columns

namespace GuardedReading
open Guarded

/-- A reading under guard that accepts the same columns and builds the same constraints. -/
structure Follows (down : Scale α) (height : Nat) (g : GuardedReading α) (r : Reading α) :
    Prop where
  id : g.id = r.id
  accepts : ∀ c, g.accepts c = .ok (r.read? c).isSome
  build : ∀ c, c.length ≤ height → ∀ states, r.read? c = some states →
    ∀ samples, g.build samples c down.toList height = .ok (states down samples)

section
variable {down : Scale α} {inOrder : α → α → Prop} {height : Nat}
  (laid : down.Laid inOrder height)
include laid

theorem outer_eq (samples : List α) {r : Run} (ordered : r.top ≤ r.bottom)
    (inside : r.bottom < height) :
    outer samples down.toList height r = .ok ⟨samples, Stroke.outer down r⟩ := by
  rw [outer, cell_eq laid inside, cell_eq laid (ordered.trans_lt inside)]
  rfl

theorem exactValue_follows : Follows down height exactValue Reading.exactValue where
  id := rfl
  accepts c := by
    have count := Column.positions_length c Stroke.pointGlyph
    simp only [exactValue, Reading.exactValue, Reading.ofStroke, Option.isSome_map, Stroke.point?,
      ← count]
    cases c.onlyBlankAnd Stroke.pointGlyph with
    | false => rfl
    | true =>
      cases c.positions Stroke.pointGlyph with
      | nil => rfl
      | cons row later =>
        cases later with
        | nil => rfl
        | cons second rest => simp [pure, Except.pure]
  build c low states read samples := by
    obtain ⟨stroke, found, rfl⟩ := Option.map_eq_some_iff.mp read
    obtain ⟨row, rfl, shows⟩ := (point_iff_shows c stroke).mp found
    have inside : row < height := shows.inside.trans_le low
    have isRun := ((spans_iff_run c _ (Stroke.glyph_visible (.point row)) _).mp shows).2
    have rows : c.positions Stroke.pointGlyph = List.range' row (row - row + 1) :=
      ((Column.run_iff_positions _ _ _).mp isRun).2
    have single : c.positions Stroke.pointGlyph = [row] := by
      rw [rows, Nat.sub_self, List.range'_one]
    simp only [exactValue, single, List.head?_cons, present, ok_bind, cell_eq laid inside]
    rfl

omit laid [Scalar α] in
theorem acceptsRun_eq (glyph : Char) (make : Run → Stroke) (c : Column) :
    (acceptsRun glyph c : Guarded α Bool) =
      .ok (if c.onlyBlankAnd glyph then (c.run? glyph).map make else none).isSome := by
  unfold acceptsRun
  split
  · rw [run_eq, ok_bind, Option.isSome_map]
    rfl
  · rfl

theorem looseRange_follows : Follows down height looseRange Reading.looseRange where
  id := rfl
  accepts c := by
    have same : ((Reading.looseRange (α := α)).read? c).isSome = (Stroke.band? c).isSome :=
      Option.isSome_map
    rw [same]
    exact acceptsRun_eq _ .band c
  build c low states read samples := by
    obtain ⟨stroke, found, rfl⟩ := Option.map_eq_some_iff.mp read
    obtain ⟨r, rfl, shows⟩ := (band_iff_shows c stroke).mp found
    have isRun := ((spans_iff_run c _ (Stroke.glyph_visible (.band r)) _).mp shows).2
    change c.run? Stroke.bandGlyph = some r at isRun
    simp only [looseRange, run_eq, isRun, present, ok_bind]
    exact outer_eq laid samples shows.ordered (shows.inside.trans_le low)

theorem strictRange_follows : Follows down height strictRange Reading.strictRange where
  id := rfl
  accepts c := by
    have same : ((Reading.strictRange (α := α)).read? c).isSome = (Stroke.line? c).isSome :=
      Option.isSome_map
    rw [same]
    exact acceptsRun_eq _ .line c
  build c low states read samples := by
    obtain ⟨stroke, found, rfl⟩ := Option.map_eq_some_iff.mp read
    obtain ⟨r, rfl, shows⟩ := (line_iff_shows c stroke).mp found
    have ordered : r.top ≤ r.bottom := shows.ordered
    have inside : r.bottom < height := shows.inside.trans_le low
    have isRun := ((spans_iff_run c _ (Stroke.glyph_visible (.line r)) _).mp shows).2
    change c.run? Stroke.lineGlyph = some r at isRun
    simp only [strictRange, run_eq, isRun, present, ok_bind, minus_of_le ordered,
      plus_of_le (show r.bottom - r.top + 1 ≤ height by omega)]
    by_cases thin : r.bottom - r.top + 1 < Stroke.thick
    · rw [if_pos thin, outer_eq laid samples ordered inside, Stroke.rule, if_pos (by exact thin)]
    · have tall : r.top + 2 ≤ r.bottom := by
        rw [Stroke.thick] at thin
        omega
      rw [if_neg thin, cell_eq laid inside, cell_eq laid (show r.top < height by omega),
        minus_of_le (show 1 ≤ r.bottom by omega), plus_of_le (show r.top + 1 ≤ height by omega),
        Stroke.rule, if_neg (by exact thin)]
      simp only [ok_bind, cell_eq laid (show r.bottom - 1 < height by omega),
        cell_eq laid (show r.top + 1 < height by omega)]
      rfl

theorem standard_follows :
    List.Forall₂ (Follows down height) standard Reading.standard :=
  .cons (exactValue_follows laid) (.cons (strictRange_follows laid)
    (.cons (looseRange_follows laid) .nil))

end

section
omit [Scalar α]
variable {down : Scale α} {height : Nat} {c : Column}

/-- A guarded reading stands for what a column means by a reading it follows. -/
structure Stands (down : Scale α) (height : Nat) (c : Column) (g : GuardedReading α)
    (m : Meaning α) : Prop where
  id : g.id = m.reading
  build : ∀ samples, g.build samples c down.toList height = .ok (m.constraint samples down)

theorem accepting_eq (low : c.length ≤ height) {gs : List (GuardedReading α)}
    {rs : List (Reading α)} (follows : List.Forall₂ (Follows down height) gs rs) :
    ∃ found, accepting c gs = .ok found ∧
      List.Forall₂ (Stands down height c) found (rs.filterMap (·.meaning? c)) := by
  induction follows with
  | nil => exact ⟨[], rfl, .nil⟩
  | @cons g r gs rs follows _ ih =>
    obtain ⟨found, later, stand⟩ := ih
    rw [accepting, follows.accepts, ok_bind, later, ok_bind]
    cases read : r.read? c with
    | none =>
      have silent : r.meaning? c = none := by
        rw [Reading.meaning?, read, Option.map_none]
      simp only [List.filterMap_cons, silent]
      exact ⟨found, rfl, stand⟩
    | some states =>
      have meaning : r.meaning? c = some ⟨r.id, states⟩ := by
        rw [Reading.meaning?, read, Option.map_some]
      simp only [List.filterMap_cons, meaning]
      exact ⟨g :: found, rfl, .cons ⟨follows.id, follows.build c low states read⟩ stand⟩

theorem names_eq {found : List (GuardedReading α)} {meanings : List (Meaning α)}
    (stand : List.Forall₂ (Stands down height c) found meanings) :
    found.map (·.id) = meanings.map (·.reading) := by
  induction stand with
  | nil => rfl
  | cons stands _ ih => rw [List.map_cons, List.map_cons, stands.id, ih]

theorem interpret_eq (low : c.length ≤ height) {gs : List (GuardedReading α)}
    {rs : List (Reading α)} (follows : List.Forall₂ (Follows down height) gs rs)
    (samples : List α) :
    interpret gs samples c down.toList height =
      ofResult ((c.interpret rs).map (·.map (·.constraint samples down))) := by
  obtain ⟨found, accepted, stand⟩ := accepting_eq low follows
  have names := names_eq stand
  unfold interpret Column.interpret
  split
  · rfl
  · rw [accepted, ok_bind]
    generalize rs.filterMap (·.meaning? c) = meanings at stand names
    match stand with
    | .nil => rfl
    | .cons stands .nil =>
      simp only [stands.build, ok_bind]
      rfl
    | .cons _ (.cons _ _) =>
      simp only [names]
      rfl

end
end GuardedReading

namespace Guarded

theorem columns_eq {across down : Scale α} {rightward downward : α → α → Prop}
    {width height : Nat} (laidAcross : across.Laid rightward width)
    (laidDown : down.Laid downward height) (count : Nat)
    {i : Nat} {cs : List Column} (inside : i + cs.length ≤ width)
    (low : ∀ c ∈ cs, c.length ≤ height) :
    columns across.toList down.toList width height count i cs =
      ofResult (Conversion.ofColumns Reading.standard across down count i cs).result := by
  induction cs generalizing i with
  | nil => rfl
  | cons c rest ih =>
    rw [List.length_cons] at inside
    obtain ⟨here, later⟩ := List.forall_mem_cons.mp low
    have next := ih (i := i + 1) (by omega) later
    rw [columns, samples_eq laidAcross count (by omega), ok_bind,
      GuardedReading.interpret_eq here (GuardedReading.standard_follows laidDown)]
    cases read : c.interpret (Reading.standard (α := α)) with
    | error fault =>
      rw [Conversion.ofColumns, read]
      rfl
    | ok meaning? =>
      rw [ofColumns_read read, next]
      cases (Conversion.ofColumns Reading.standard across down count (i + 1) rest).result <;> rfl

end Guarded

namespace Sketch

omit [Scalar α] in
theorem columns_low (s : Sketch α) : ∀ c ∈ s.columns, c.length ≤ s.rows.length := by
  intro c member
  rw [columns, columns_eq_map] at member
  obtain ⟨i, _, rfl⟩ := List.mem_map.mp member
  exact (List.length_filterMap_le _ _).trans_eq (List.length_map _)

theorem columns_guarded {s : Sketch α} {samples : Nat} {across down : Scale α}
    (scales : s.scales ⟨samples⟩ = .ok (across, down)) :
    Guarded.columns across.toList down.toList s.ruler.width s.rows.length samples 0 s.columns =
      Guarded.ofResult
        (Conversion.ofColumns Reading.standard across down samples 0 s.columns).result := by
  obtain ⟨_, _, isAcross, isDown⟩ := (s.scales_ok_iff samples across down).mp scales
  have width : 0 + s.columns.length ≤ s.ruler.width := by
    rw [columns_of_scales scales]
    simp [Ruler.width]
  exact Guarded.columns_eq (across_laid isAcross) (down_laid isDown) samples width s.columns_low

theorem ticksGuarded_eq (s : Sketch α) (options : Options) :
    s.ticksGuarded options =
      Guarded.ofResult ((s.scales options).map fun scales => (scales.1.toList, scales.2.toList)) := by
  have isDown : Guarded.down s.rows = Guarded.ofResult (s.down.map Scale.toList) :=
    Guarded.down_eq s.rows
  have isAcross : Guarded.across s.ruler = Guarded.ofResult (s.across.map Scale.toList) :=
    Guarded.across_eq s.ruler
  rw [ticksGuarded, scales, isAcross, isDown]
  cases (options.validate : Except (Fault α) Unit) with
  | error fault => rfl
  | ok _ =>
    cases s.checkWidths with
    | error fault => rfl
    | ok _ =>
      cases s.across with
      | error fault => rfl
      | ok across => cases s.down <;> rfl

theorem convertGuarded_eq (s : Sketch α) (options : Options) :
    s.convertGuarded options = Guarded.ofResult (s.convert options).result := by
  rw [convert_result, convertGuarded, ticksGuarded_eq]
  cases accepted : s.scales options with
  | error fault => rfl
  | ok scales => exact columns_guarded accepted

/-- Conversion under guard never takes a step that cannot be taken. It ends with the constraints
    or the fault that conversion gives. -/
theorem conversion_never_missteps (s : Sketch α) (options : Options) :
    ((∃ cs, s.convertGuarded options = .ok cs ∧ (s.convert options).result = .ok cs) ∨
        ∃ fault, s.convertGuarded options = .error (.fault fault) ∧
          (s.convert options).result = .error fault) ∧
      ∀ misstep, s.convertGuarded options ≠ .error (.misstep misstep) := by
  rw [convertGuarded_eq]
  cases (s.convert options).result with
  | error fault => exact ⟨Or.inr ⟨fault, rfl, rfl⟩, fun misstep => by simp [Guarded.ofResult_error]⟩
  | ok cs => exact ⟨Or.inl ⟨cs, rfl, rfl⟩, fun misstep => by simp [Guarded.ofResult_ok]⟩

end Sketch

end CurveSketch
