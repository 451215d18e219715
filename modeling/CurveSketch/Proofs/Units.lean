import CurveSketch.Proofs.Crowding
import CurveSketch.Proofs.Rescaling
import CurveSketch.Proofs.Verdict

/- Pictures in other units. When the values of the ruler and the labels of the rows are written in
   other units, one for each axis, a conversion and a check come out the same, with every number
   written in the unit of its axis. -/
namespace CurveSketch
variable {σ α β : Type}

section
variable (g : Axis → α → β)

def Constraint.map (c : Constraint α) : Constraint β := ⟨c.samples.map (g .x), c.rule.map (g .y)⟩

def Sketch.map (s : Sketch α) : Sketch β :=
  ⟨s.rows.map fun row => ⟨row.label?.map (g .y), row.glyphs⟩,
    ⟨s.ruler.marks, s.ruler.values.map (g .x)⟩⟩

def Fault.map : Fault α → Fault β
  | .unequalWidths => .unequalWidths
  | .tooFewTicks axis found => .tooFewTicks axis found
  | .openEnds axis => .openEnds axis
  | .unpairedMarks marks values => .unpairedMarks marks values
  | .disordered axis first second => .disordered axis (g axis first) (g axis second)
  | .unreadable column => .unreadable column
  | .ambiguous readings column => .ambiguous readings column
  | .tooFewSamples count => .tooFewSamples count
  | .noRuler => .noRuler

def Violation.map : Violation α → Violation β
  | .unequal x output expected => .unequal (g .x x) (g .y output) (g .y expected)
  | .outside x output low high => .outside (g .x x) (g .y output) (g .y low) (g .y high)
  | .unspanned firstX lastX low high missing =>
    .unspanned (g .x firstX) (g .x lastX) (g .y low) (g .y high) missing
  | .failed x cause => .failed (g .x x) cause

def Note.map : Note α → Note β
  | .columnRead column reading => .columnRead column reading
  | .converted width height constraints samples => .converted width height constraints samples
  | .evaluating constraints samples => .evaluating constraints samples
  | .compared rule x output => .compared (rule.map (g .y)) (g .x x) (g .y output)

def Halt.map : Halt α → Halt β
  | .malformed fault => .malformed (fault.map g)
  | .violated violation => .violated (violation.map g)
  | .escaped message? => .escaped message?

def Trial.map (t : Trial σ α) : Trial σ β :=
  ⟨t.calls.map (g .x), t.outputs.map (g .y), t.notes.map (Note.map g),
    t.halt?.map (Halt.map g), t.state⟩

def seen {γ δ : Type} (h : γ → δ) (r : Except (Fault α) γ) : Except (Fault β) δ :=
  (r.map h).mapError (Fault.map g)

def Conversion.map (c : Conversion α) : Conversion β :=
  ⟨c.notes.map (Note.map g), seen g (List.map (Constraint.map g)) c.result⟩

def Answer.map : Answer α → Answer β
  | .value y => .value (g .y y)
  | .failure violation => .failure (violation.map g)
  | .escape message? => .escape message?

theorem ticksFrom_map (h : α → β) (i : ℕ) (slots : List (Option α)) :
    ticksFrom i (slots.map (Option.map h)) = (ticksFrom i slots).map (Tick.map h) := by
  induction slots generalizing i with
  | nil => rfl
  | cons slot rest ih => cases slot <;> simp [ticksFrom, ih, Tick.map]

theorem closedEnds_map (h : α → β) (slots : List (Option α)) :
    closedEnds (slots.map (Option.map h)) = closedEnds slots := by
  have holds (slot? : Option (Option α)) :
      ((slot?.map (Option.map h)).join).isSome = slot?.join.isSome := by
    cases slot? with
    | none => rfl
    | some slot => cases slot <;> rfl
  rw [closedEnds, List.head?_map, List.getLast?_map, holds, holds]
  rfl

theorem pairMarks_map (h : α → β) (marks : List Char) (values : List α) :
    pairMarks marks (values.map h) = (pairMarks marks values).map (Option.map h) := by
  induction marks generalizing values with
  | nil => rfl
  | cons mark marks ih =>
    have next := ih values.tail
    rw [List.map_tail] at next
    unfold pairMarks
    split
    · simp [ih]
    · simp [next]

theorem Sketch.columns_map (s : Sketch α) : (s.map g).columns = s.columns := by
  simp [columns, map, Function.comp_def]

theorem Sketch.checkWidths_map (s : Sketch α) :
    (s.map g).checkWidths = seen g id s.checkWidths := by
  have widths : (s.map g).rows.all (fun row => row.width == (s.map g).ruler.width) =
      s.rows.all fun row => row.width == s.ruler.width := by
    simp [map, Row.width, Ruler.width, Function.comp_def]
  unfold checkWidths
  rw [widths]
  split <;> rfl

end

abbrev Units := Axis → Rescaling

def Units.on (units : Units) (axis : Axis) : ℚ → ℚ := (units axis).apply

/-- The function that takes and gives numbers in these units and does what `f` does. -/
def Subject.rescale (units : Units) (f : Subject σ ℚ) : Subject σ ℚ := fun x s =>
  match f ((units .x).inverse.apply x) s with
  | (.value y, next) => (.value (units.on .y y), next)
  | (.error cause, next) => (.error cause, next)
  | (.crash message?, next) => (.crash message?, next)

variable (units : Units)

section Conversions

theorem disorder_map (axis : Axis) (values : List ℚ) :
    disorder? axis.inOrder (values.map (units.on axis)) =
      (disorder? axis.inOrder values).map (Prod.map (units.on axis) (units.on axis)) := by
  have kept (a b : ℚ) : axis.inOrder (units.on axis a) (units.on axis b) = axis.inOrder a b := by
    cases axis with
    | x => simp [Axis.inOrder, Units.on]
    | y => simp [Axis.inOrder, Units.on, rat_order]
  induction values with
  | nil => rfl
  | cons a rest ih =>
    cases rest with
    | nil => rfl
    | cons b rest =>
      simp only [List.map_cons, disorder?, kept] at ih ⊢
      split
      · exact ih
      · rfl

theorem Axis.scale_map (axis : Axis) (slots : List (Option ℚ)) :
    axis.scale (slots.map (Option.map (units.on axis))) =
      seen units.on (Scale.map (units.on axis)) (axis.scale slots) := by
  unfold scale
  rw [ticksFrom_map, closedEnds_map]
  match ticksFrom 0 slots with
  | [] => rfl
  | [_] => rfl
  | first :: second :: rest =>
    have values : (((first :: second :: rest).map (Tick.map (units.on axis))).map (·.value)) =
        ((first :: second :: rest).map (·.value)).map (units.on axis) := by
      simp [Tick.map, Function.comp_def]
    simp only [List.map_cons] at values ⊢
    split
    · rw [values, ← List.map_cons, ← List.map_cons, disorder_map]
      cases disorder? axis.inOrder (first.value :: second.value :: rest.map (·.value)) <;> rfl
    · rfl

theorem Sketch.across_map (s : Sketch ℚ) :
    (s.map units.on).across = seen units.on (Scale.map (units.on .x)) s.across := by
  have slots : (s.map units.on).ruler.slots =
      s.ruler.slots.map (Option.map (units.on .x)) :=
    pairMarks_map (units.on .x) s.ruler.marks s.ruler.values
  have ticks : (s.map units.on).ruler.tickCount = s.ruler.tickCount := rfl
  have values : (s.map units.on).ruler.values.length = s.ruler.values.length :=
    List.length_map _
  unfold across Ruler.scale
  rw [slots, ticks, values, Axis.scale_map]
  split <;> rfl

theorem Sketch.down_map (s : Sketch ℚ) :
    (s.map units.on).down = seen units.on (Scale.map (units.on .y)) s.down := by
  have slots : (s.map units.on).rows.map (·.label?) =
      (s.rows.map (·.label?)).map (Option.map (units.on .y)) := by
    simp [map, Function.comp_def]
  rw [down, down, slots, Axis.scale_map]

theorem Sketch.scales_map (s : Sketch ℚ) (options : Options) :
    (s.map units.on).scales options =
      seen units.on (Prod.map (Scale.map (units.on .x)) (Scale.map (units.on .y)))
        (s.scales options) := by
  unfold scales Options.validate
  rw [checkWidths_map, across_map, down_map]
  by_cases unsampled : options.samples = 0
  · rw [if_pos unsampled]
    rfl
  · rw [if_neg unsampled]
    cases s.checkWidths with
    | error fault => rfl
    | ok widths =>
      cases s.across with
      | error fault => rfl
      | ok across => cases s.down <;> rfl

theorem ofColumns_map (across down : Scale ℚ) (count i : ℕ) (columns : List Column) :
    Conversion.ofColumns Reading.standard (across.map (units.on .x)) (down.map (units.on .y))
        count i columns =
      (Conversion.ofColumns Reading.standard across down count i columns).map units.on := by
  induction columns generalizing i with
  | nil => rfl
  | cons c rest ih =>
    by_cases readable : Readable c
    · rcases readable with blank | ⟨s, shows⟩
      · simp only [Conversion.ofColumns, interpret_blank blank, ih]
      · have constraint : s.meaning.constraint ((across.map (units.on .x)).samples count i)
            (down.map (units.on .y)) =
              (s.meaning.constraint (across.samples count i) down).map units.on := by
          simp only [Meaning.constraint, Constraint.map, Stroke.meaning, Units.on,
            Scale.samples_map, Stroke.rule_map]
        simp only [Conversion.ofColumns, interpret_shown shows, ih, constraint]
        simp only [Conversion.map, List.map_cons, Conversion.mk.injEq]
        refine ⟨rfl, ?_⟩
        cases (Conversion.ofColumns Reading.standard across down count (i + 1) rest).result <;> rfl
    · simp only [Conversion.ofColumns, interpret_unreadable readable]
      rfl

theorem summarised_map (c : Conversion ℚ) (width height count : ℕ) :
    (c.map units.on).summarised width height count =
      (c.summarised width height count).map units.on := by
  obtain ⟨notes, result⟩ := c
  cases result with
  | error fault => rfl
  | ok cs =>
    simp [Conversion.summarised, Conversion.map, seen, Note.map, Except.map, Except.mapError]

theorem Sketch.convert_map (s : Sketch ℚ) (options : Options) :
    (s.map units.on).convert options = (s.convert options).map units.on := by
  unfold convert convertWith
  rw [scales_map]
  cases s.scales options with
  | error fault => rfl
  | ok scales =>
    have height : (s.map units.on).rows.length = s.rows.length := List.length_map _
    change ((Conversion.ofColumns _ (scales.1.map _) (scales.2.map _) _ _ _).summarised
      s.ruler.width _ _) = _
    rw [ofColumns_map, columns_map, height, summarised_map]

end Conversions

section Trials
variable {units} {f f' : Probe σ ℚ}

def Probe.AgreesIn (units : Units) (f f' : Probe σ ℚ) : Prop :=
  ∀ x s, f' (units.on .x x) s = ((f x s).1.map units.on, (f x s).2)

theorem Subject.rescale_agrees (f : Subject σ ℚ) :
    Probe.AgreesIn units f.catching (f.rescale units).catching := by
  intro x s
  have back : (units .x).inverse.apply (units.on .x x) = x := (units .x).inverse_apply x
  simp only [catching, rescale, back]
  obtain ⟨outcome, next⟩ := f x s
  cases outcome <;> rfl

theorem Rule.objection_map (rule : Rule ℚ) (x y : ℚ) :
    (rule.map (units.on .y)).objection? (units.on .x x) (units.on .y y) =
      (rule.objection? x y).map (Violation.map units.on) := by
  cases rule with
  | equals expected =>
    simp only [map, objection?, Units.on, Rescaling.apply_beq]
    split <;> rfl
  | within low high =>
    simp only [map, objection?, Units.on, Rescaling.apply_le_iff]
    split <;> rfl
  | spanning low high innerLow innerHigh =>
    simp only [map, objection?, Units.on, Rescaling.apply_le_iff]
    split <;> rfl

theorem Rule.shortfall_map (rule : Rule ℚ) {xs : List ℚ} (inhabited : xs ≠ []) (ys : List ℚ) :
    (rule.map (units.on .y)).shortfall? (xs.map (units.on .x)) (ys.map (units.on .y)) =
      (rule.shortfall? xs ys).map (Violation.map units.on) := by
  cases rule with
  | equals expected => rfl
  | within low high => rfl
  | spanning low high innerLow innerHigh =>
    have above : (ys.map (units.on .y)).any (fun y => units.on .y innerHigh < y) =
        ys.any fun y => innerHigh < y := by
      simp [Units.on, List.any_map, Function.comp_def]
    have below : (ys.map (units.on .y)).any (fun y => y < units.on .y innerLow) =
        ys.any fun y => y < innerLow := by
      simp [Units.on, List.any_map, Function.comp_def]
    -- Without samples the ends of the column would be no numbers of this axis.
    obtain ⟨first, rest, rfl⟩ := List.exists_cons_of_ne_nil inhabited
    simp only [map, shortfall?, above, below, List.map_cons, List.headD_cons,
      List.getLastD_cons, List.getLastD_map, Option.map_map]
    rfl

namespace Trial

theorem andThen_map (t : Trial σ ℚ) {next next' : σ → Trial σ ℚ}
    (same : ∀ s, next' s = (next s).map units.on) :
    (t.map units.on).andThen next' = (t.andThen next).map units.on := by
  cases halts : t.halt? with
  | some halt => simp [andThen, map, halts]
  | none => simp [andThen, map, halts, same]

theorem ofCall_map (agrees : Probe.AgreesIn units f f') (rule : Rule ℚ) (x : ℚ) (s : σ) :
    ofCall (rule.map (units.on .y)) f' (units.on .x x) s =
      (ofCall rule f x s).map units.on := by
  have call := agrees x s
  unfold ofCall
  rw [call]
  obtain ⟨answer, next⟩ := f x s
  cases answer with
  | value y =>
    simp only [Answer.map, map, Rule.objection_map, Option.map_map, List.map_cons, List.map_nil,
      Note.map]
    rfl
  | failure violation => rfl
  | escape message? => rfl

theorem ofSamples_map (agrees : Probe.AgreesIn units f f') (rule : Rule ℚ) (xs : List ℚ)
    (s : σ) :
    ofSamples (rule.map (units.on .y)) f' (xs.map (units.on .x)) s =
      (ofSamples rule f xs s).map units.on := by
  induction xs generalizing s with
  | nil => rfl
  | cons x xs ih => rw [List.map_cons, ofSamples, ofSamples, ofCall_map agrees, andThen_map _ ih]

theorem ofConstraint_map (agrees : Probe.AgreesIn units f f') {c : Constraint ℚ}
    (inhabited : c.samples ≠ []) (s : σ) :
    ofConstraint f' (c.map units.on) s = (ofConstraint f c s).map units.on := by
  simp only [ofConstraint, Constraint.map, ofSamples_map agrees]
  unfold judged
  cases halts : (ofSamples c.rule f c.samples s).halt? with
  | some halt => simp [map, halts]
  | none =>
    simp only [map, halts, Option.map_none, c.rule.shortfall_map inhabited, Option.map_map]
    rfl

theorem ofConstraints_map (agrees : Probe.AgreesIn units f f') {cs : List (Constraint ℚ)}
    (inhabited : ∀ c ∈ cs, c.samples ≠ []) (s : σ) :
    ofConstraints f' (cs.map (Constraint.map units.on)) s =
      (ofConstraints f cs s).map units.on := by
  induction cs generalizing s with
  | nil => rfl
  | cons c cs ih =>
    obtain ⟨first, later⟩ := List.forall_mem_cons.mp inhabited
    rw [List.map_cons, ofConstraints, ofConstraints, ofConstraint_map agrees first,
      andThen_map _ (ih later)]

theorem after_map (notes : List (Note ℚ)) (t : Trial σ ℚ) :
    (t.map units.on).after (notes.map (Note.map units.on)) = (t.after notes).map units.on := by
  simp [after, map]

end Trial
end Trials

section Checks
variable {s : Sketch ℚ} {samples : ℕ}

theorem Sketch.samples_inhabited {cs : List (Constraint ℚ)}
    (accepted : (s.convert ⟨samples⟩).result = .ok cs) : ∀ c ∈ cs, c.samples ≠ [] := by
  obtain ⟨across, down, scales, reads⟩ := (s.convert_ok_iff samples cs).mp accepted
  obtain ⟨some, _, isAcross, _⟩ := (s.scales_ok_iff samples across down).mp scales
  refine (constraints_of_strokes scales reads _).mpr fun i inside stroke _ => ?_
  exact Scale.samples_inhabited (across_laid isAcross) some inside

theorem totalSamples_map (cs : List (Constraint ℚ)) :
    totalSamples (cs.map (Constraint.map units.on)) = totalSamples cs := by
  induction cs with
  | nil => rfl
  | cons c cs ih => simp [totalSamples, Constraint.map, ih]

theorem Subject.check_map (f : Subject σ ℚ) (samples : ℕ) (s : Sketch ℚ) (start : σ) :
    (f.rescale units).check samples (s.map units.on) start =
      (f.check samples s start).map units.on := by
  have convert := s.convert_map units ⟨samples⟩
  rw [check_eq, check_eq]
  cases result : (s.convert ⟨samples⟩).result with
  | error fault =>
    have result' : ((s.map units.on).convert ⟨samples⟩).result = .error (fault.map units.on) := by
      rw [convert, Conversion.map, result]
      rfl
    rw [trial_of_fault _ start result, trial_of_fault _ start result', convert]
    rfl
  | ok cs =>
    have result' : ((s.map units.on).convert ⟨samples⟩).result =
        .ok (cs.map (Constraint.map units.on)) := by
      rw [convert, Conversion.map, result]
      rfl
    have inhabited := Sketch.samples_inhabited result
    rw [trial_of_constraints _ start result, trial_of_constraints _ start result',
      Trial.ofConstraints_map f.rescale_agrees inhabited, convert, totalSamples_map,
      List.length_map, ← Trial.after_map, List.map_append]
    rfl

end Checks

/-- Units do not matter. With the values of the ruler in one new unit and the labels of the rows
    in another, a conversion gives the same constraints or the same fault, each number written in
    the unit of its axis; and a function that is seen in these units fares as before: the same
    calls up to the units, the same end. -/
theorem units_immaterial (units : Units) (s : Sketch ℚ) (samples : ℕ) :
    ((s.map units.on).convert ⟨samples⟩).result =
        ((s.convert ⟨samples⟩).result.map (List.map (Constraint.map units.on))).mapError
          (Fault.map units.on) ∧
      ∀ (f : Subject σ ℚ) (start : σ),
        (f.rescale units).check samples (s.map units.on) start =
            (f.check samples s start).map units.on ∧
          (((f.rescale units).check samples (s.map units.on) start).halt? = none ↔
            (f.check samples s start).halt? = none) := by
  constructor
  · rw [s.convert_map units]
    rfl
  · intro f start
    have same := f.check_map units samples s start
    refine ⟨same, ?_⟩
    rw [same]
    exact Option.map_eq_none_iff

/-- Minutes for hours, and degrees Fahrenheit for degrees Celsius. -/
def minutesFahrenheit : Units
  | .x => ⟨60, 0, by norm_num⟩
  | .y => ⟨9 / 5, 32, by norm_num⟩

def cooling : Sketch ℚ :=
  ⟨[⟨some 100, ['X', ' ']⟩, ⟨some 0, [' ', 'X']⟩], ⟨['|', '|'], [0, 1]⟩⟩

example :
    (cooling.convert ⟨1⟩).result = .ok [⟨[0], .equals 100⟩, ⟨[1], .equals 0⟩] ∧
      ((cooling.map minutesFahrenheit.on).convert ⟨1⟩).result =
        .ok [⟨[0], .equals 212⟩, ⟨[60], .equals 32⟩] := by
  decide +kernel

end CurveSketch
