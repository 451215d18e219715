import CurveSketch.Proofs.CheckForms

/- The log of a check. It tells the columns that are read, then sums up the conversion and the
   evaluation to come, then tells the calls that return a value. The summaries count what is
   really there, and the calls are told up to the one that ends the check. -/
namespace CurveSketch
variable {σ α : Type}

def inked (columns : List Column) : List Column := columns.filter fun c => !c.isBlank

theorem inked_of_blank {c : Column} (rest : List Column) (blank : c.isBlank = true) :
    inked (c :: rest) = inked rest := by
  simp [inked, blank]

theorem inked_of_ink {c : Column} (rest : List Column) (ink : c.isBlank = false) :
    inked (c :: rest) = c :: inked rest := by
  simp [inked, ink]

def columnNotes (columns : List Column) (strokes : List Stroke) : List (Note α) :=
  List.zipWith (fun c stroke => .columnRead c stroke.reading) columns strokes

/-- Every sample of every constraint, with the rule that its output is held against. -/
def plannedCalls (cs : List (Constraint α)) : List (Rule α × α) :=
  cs.flatMap fun c => c.samples.map (c.rule, ·)

theorem plannedCalls_length (cs : List (Constraint α)) :
    (plannedCalls cs).length = (cs.map (·.samples.length)).sum := by
  simp [plannedCalls, List.length_flatMap]

theorem totalSamples_eq_sum (cs : List (Constraint α)) :
    totalSamples cs = (cs.map (·.samples.length)).sum := by
  induction cs with
  | nil => rfl
  | cons c cs ih => simp [totalSamples, ih]

def summaries (s : Sketch α) (samples : Nat) (cs : List (Constraint α)) : List (Note α) :=
  [.converted s.ruler.width s.rows.length cs.length samples,
    .evaluating cs.length (cs.map (·.samples.length)).sum]

def logged (limit : Level) (notes : List (Note Float)) : List (Level × String) :=
  (notes.filter (·.shownAt limit)).map fun n => (n.level, n.text)

theorem logged_append (limit : Level) (notes more : List (Note Float)) :
    logged limit (notes ++ more) = logged limit notes ++ logged limit more := by
  simp [logged]

theorem logged_details {notes : List (Note Float)} (details : ∀ n ∈ notes, n.level = .trace) :
    logged .trace notes = notes.map (fun n => (.trace, n.text)) ∧ logged .debug notes = [] := by
  have shown (limit : Level) : notes.filter (·.shownAt limit) =
      notes.filter fun _ => Level.trace.detail ≤ limit.detail :=
    List.filter_congr fun n member => by simp [Note.shownAt, details n member]
  simp only [logged, shown]
  constructor
  · simpa [Level.detail] using fun n member => details n member
  · simp [Level.detail]

/- The lines of a log, word by word. -/

def columnLine (c : Column) (stroke : Stroke) : Level × String :=
  (.trace, "column " ++ Text.quote c ++ " -> " ++ stroke.reading)

def summaryLines (s : Sketch Float) (samples : Nat) (cs : List (Constraint Float)) :
    List (Level × String) :=
  [(.debug, "converted " ++ toString s.ruler.marks.length ++ "x" ++ toString s.rows.length ++
      " plot into " ++ toString cs.length ++ " constraint(s) (" ++ toString samples ++
      " sample(s) per character)"),
    (.debug, "evaluating " ++ toString cs.length ++ " constraint(s) over " ++
      toString (cs.map (·.samples.length)).sum ++ " sample(s)")]

def callText (rule : Rule Float) (x output : Float) : String :=
  match rule with
  | .equals y =>
    "exact: f(" ++ Decimal.text x ++ ") = " ++ Decimal.text output ++
      ", expected " ++ Decimal.text y
  | .within low high | .spanning low high _ _ =>
    "range: f(" ++ Decimal.text x ++ ") = " ++ Decimal.text output ++
      ", expected [" ++ Decimal.text low ++ ", " ++ Decimal.text high ++ "]"

theorem summaries_lines (s : Sketch Float) (samples : Nat) (cs : List (Constraint Float)) :
    logged .trace (summaries s samples cs) = summaryLines s samples cs ∧
      logged .debug (summaries s samples cs) = summaryLines s samples cs :=
  ⟨rfl, rfl⟩

theorem call_after (front : String) (x output : Float) :
    front ++ Note.call x output = front ++ "f(" ++ Decimal.text x ++ ") = " ++
      Decimal.text output ++ ", expected " := by
  rw [Note.call, ← String.append_assoc, ← String.append_assoc, ← String.append_assoc,
    ← String.append_assoc]

theorem range_after (front : String) (low high : Float) :
    front ++ ", expected " ++ Note.range low high =
      front ++ ", expected [" ++ Decimal.text low ++ ", " ++ Decimal.text high ++ "]" := by
  have opened : ", expected " ++ "[" = ", expected [" := rfl
  rw [Note.range, ← opened]
  simp only [String.append_assoc]

theorem compared_text (rule : Rule Float) (x output : Float) :
    (Note.compared rule x output).text = callText rule x output := by
  have exactly : "exact: " ++ "f(" = "exact: f(" := rfl
  have between : "range: " ++ "f(" = "range: f(" := rfl
  cases rule with
  | equals y =>
    change "exact: " ++ Note.call x output ++ Decimal.text y = _
    rw [call_after, exactly]
    rfl
  | within low high =>
    change "range: " ++ Note.call x output ++ Note.range low high = _
    rw [call_after, range_after, between]
    rfl
  | spanning low high innerLow innerHigh =>
    change "range: " ++ Note.call x output ++ Note.range low high = _
    rw [call_after, range_after, between]
    rfl
theorem columnNotes_level (columns : List Column) (strokes : List Stroke) :
    ∀ n ∈ (columnNotes columns strokes : List (Note α)), n.level = .trace := by
  intro n member
  obtain ⟨i, _, rfl⟩ := List.mem_iff_getElem.mp member
  simp [columnNotes, Note.level]

theorem columnNotes_lines (columns : List Column) (strokes : List Stroke) :
    logged .trace (columnNotes columns strokes) = List.zipWith columnLine columns strokes ∧
      logged .debug (columnNotes columns strokes) = [] := by
  obtain ⟨trace, debug⟩ := logged_details (columnNotes_level columns strokes)
  refine ⟨?_, debug⟩
  rw [trace, columnNotes, List.map_zipWith]
  rfl

namespace Subject

/-- Of calls that are made one after the other, those that return a value are told: the rule, the
    argument and the value. -/
def told (f : Subject σ α) : List (Rule α × α) → σ → List (Note α)
  | [], _ => []
  | (rule, x) :: rest, here =>
    match f x here with
    | (.value y, next) => .compared rule x y :: told f rest next
    | (_, next) => told f rest next

def stateAfter (f : Subject σ α) (calls : List (Rule α × α)) (start : σ) : σ :=
  calls.foldl (fun here call => (f call.2 here).2) start

theorem stateAfter_append (f : Subject σ α) (calls more : List (Rule α × α)) (start : σ) :
    f.stateAfter (calls ++ more) start = f.stateAfter more (f.stateAfter calls start) :=
  List.foldl_append

theorem told_append (f : Subject σ α) (calls more : List (Rule α × α)) (start : σ) :
    f.told (calls ++ more) start =
      f.told calls start ++ f.told more (f.stateAfter calls start) := by
  induction calls generalizing start with
  | nil => rfl
  | cons call calls ih =>
    obtain ⟨rule, x⟩ := call
    cases answer : f x start with
    | mk outcome next => cases outcome <;> simp [told, stateAfter, answer, ih]

theorem told_level (f : Subject σ α) (calls : List (Rule α × α)) (start : σ) :
    ∀ n ∈ f.told calls start, n.level = .trace := by
  induction calls generalizing start with
  | nil => simp [told]
  | cons call calls ih =>
    obtain ⟨rule, x⟩ := call
    cases answer : f x start with
    | mk outcome next => cases outcome <;> simpa [told, answer, Note.level] using ih next

def toldLines (f : Subject σ Float) : List (Rule Float × Float) → σ → List (Level × String)
  | [], _ => []
  | (rule, x) :: rest, here =>
    match f x here with
    | (.value y, next) => (.trace, callText rule x y) :: toldLines f rest next
    | (_, next) => toldLines f rest next

theorem told_lines (f : Subject σ Float) (calls : List (Rule Float × Float)) (start : σ) :
    logged .trace (f.told calls start) = f.toldLines calls start ∧
      logged .debug (f.told calls start) = [] := by
  obtain ⟨trace, debug⟩ := logged_details (f.told_level calls start)
  refine ⟨?_, debug⟩
  rw [trace]
  clear trace debug
  induction calls generalizing start with
  | nil => rfl
  | cons call calls ih =>
    obtain ⟨rule, x⟩ := call
    cases answer : f x start with
    | mk outcome next => cases outcome <;> simp [told, toldLines, answer, ih, compared_text]

theorem toldLines_length (f : Subject σ Float) (calls : List (Rule Float × Float)) (start : σ) :
    (f.toldLines calls start).length = (f.told calls start).length := by
  rw [← (f.told_lines calls start).1, (logged_details (f.told_level calls start)).1,
    List.length_map]

end Subject

namespace Trial

def Fails (t : Trial σ α) : Prop := ∃ x cause, t.halt? = some (.violated (.failed x cause))

/-- A trial makes the first of the planned calls, all of them unless it halts, and it notes what is
    to be told of them. Only a failure leaves the last call untold. -/
structure Tells (f : Subject σ α) (planned made : List (Rule α × α)) (start : σ)
    (t : Trial σ α) : Prop where
  along : made <+: planned
  whole : t.halt? = none → made = planned
  calls : t.calls = made.map Prod.snd
  notes : t.notes = f.told made start
  state : t.state = f.stateAfter made start
  failed : t.Fails → (f.told made start).length + 1 = made.length
  answered : ¬ t.Fails → (f.told made start).length = made.length

theorem not_fails_of_pass {t : Trial σ α} (passes : t.halt? = none) : ¬ t.Fails := by
  simp [Fails, passes]

section
variable {f : Subject σ α} {planned made : List (Rule α × α)} {start : σ} {t : Trial σ α}

theorem Tells.told_le (tells : t.Tells f planned made start) :
    (f.told made start).length ≤ planned.length := by
  have along := tells.along.length_le
  by_cases fails : t.Fails
  · have unheard := tells.failed fails
    omega
  · have heard := tells.answered fails
    omega

theorem Tells.told_of_pass (tells : t.Tells f planned made start) (passes : t.halt? = none) :
    (f.told made start).length = planned.length := by
  rw [tells.answered (not_fails_of_pass passes), tells.whole passes]

theorem idle_tells (f : Subject σ α) (start : σ) : (idle start).Tells f [] [] start := by
  constructor <;> simp [idle, Fails, Subject.told, Subject.stateAfter]

theorem andThen_tells {later : List (Rule α × α)} {next : σ → Trial σ α}
    (first : t.Tells f planned made start)
    (second : ∀ here, ∃ made', (next here).Tells f later made' here) :
    ∃ made', (t.andThen next).Tells f (planned ++ later) made' start := by
  cases halts : t.halt? with
  | some halt =>
    have same : t.andThen next = t := by simp [andThen, halts]
    rw [same]
    exact ⟨made, { first with
      along := first.along.trans (List.prefix_append planned later)
      whole := by simp [halts] }⟩
  | none =>
    obtain ⟨made', second⟩ := second t.state
    cases first.whole halts
    have heard := first.answered (not_fails_of_pass halts)
    -- the second trial takes over the state that the calls of the first have left
    rw [first.state] at second
    rw [andThen_of_pass next halts, first.state]
    refine ⟨planned ++ made', ?_⟩
    exact {
      along := (List.prefix_append_right_inj planned).mpr second.along
      whole := fun passes => by rw [second.whole passes]
      calls := by simp [first.calls, second.calls]
      notes := by simp [first.notes, second.notes, f.told_append]
      state := by simp [second.state, f.stateAfter_append]
      failed := fun fails => by
        have unheard := second.failed fails
        simp only [f.told_append, List.length_append]
        omega
      answered := fun fine => by
        have heard' := second.answered fine
        simp only [f.told_append, List.length_append]
        omega }

variable [Scalar α]

theorem ofCall_tells (rule : Rule α) (f : Subject σ α) (x : α) (start : σ) :
    (ofCall rule f.catching x start).Tells f [(rule, x)] [(rule, x)] start := by
  have unfailed (y z : α) (cause : String) : rule.objection? x y ≠ some (.failed z cause) := by
    cases rule <;> simp [Rule.objection?]
  cases answer : f x start with
  | mk outcome next =>
    cases outcome <;> constructor <;>
      simp [ofCall, Subject.catching, Outcome.caught, Subject.told, Subject.stateAfter, answer,
        Fails, unfailed]

theorem ofSamples_tells (rule : Rule α) (f : Subject σ α) (xs : List α) (start : σ) :
    ∃ made, (ofSamples rule f.catching xs start).Tells f (xs.map (rule, ·)) made start := by
  induction xs generalizing start with
  | nil => exact ⟨[], idle_tells f start⟩
  | cons x xs ih => exact andThen_tells (ofCall_tells rule f x start) ih

theorem judged_tells (c : Constraint α) (tells : t.Tells f planned made start) :
    (t.judged c).Tells f planned made start := by
  cases halts : t.halt? with
  | some halt => rwa [judged_of_halt c halts]
  | none =>
    have unfailed (x : α) (cause : String) :
        c.rule.shortfall? c.samples t.outputs ≠ some (.failed x cause) := by
      simp [Rule.shortfall_some_iff]
    have same : t.judged c =
        { t with halt? := (c.rule.shortfall? c.samples t.outputs).map .violated } := by
      simp [judged, halts]
    rw [same]
    exact { tells with
      whole := fun _ => tells.whole halts
      failed := by simp [Fails, unfailed]
      answered := fun _ => tells.answered (not_fails_of_pass halts) }

theorem ofConstraints_tells (f : Subject σ α) (cs : List (Constraint α)) (start : σ) :
    ∃ made, (ofConstraints f.catching cs start).Tells f (plannedCalls cs) made start := by
  induction cs generalizing start with
  | nil => exact ⟨[], idle_tells f start⟩
  | cons c cs ih =>
    obtain ⟨made, samples⟩ := ofSamples_tells c.rule f c.samples start
    exact andThen_tells (judged_tells c samples) ih

end
end Trial

section
variable [Scalar α] {across down : Scale α} {count : Nat}

omit [Scalar α] in
theorem strokes_of_readable {columns : List Column} (readable : ∀ c ∈ columns, Readable c) :
    ∃ strokes, List.Forall₂ Shows (inked columns) strokes := by
  induction columns with
  | nil => exact ⟨[], .nil⟩
  | cons c columns ih =>
    obtain ⟨first, later⟩ := List.forall_mem_cons.mp readable
    obtain ⟨strokes, shown⟩ := ih later
    rcases first with blank | ⟨stroke, shows⟩
    · exact ⟨strokes, by rwa [inked_of_blank columns blank]⟩
    · refine ⟨stroke :: strokes, ?_⟩
      rw [inked_of_ink columns (shows_not_blank shows)]
      exact .cons shows shown

omit [Scalar α] in
theorem strokes_unique {columns : List Column} {strokes strokes' : List Stroke}
    (shown : List.Forall₂ Shows columns strokes) (shown' : List.Forall₂ Shows columns strokes') :
    strokes = strokes' := by
  induction shown generalizing strokes' with
  | nil =>
    cases shown'
    rfl
  | cons shows _ ih =>
    cases shown' with
    | cons shows' later => rw [shows_unique shows shows', ih later]

theorem ofColumns_notes {columns : List Column} {strokes : List Stroke}
    (shown : List.Forall₂ Shows (inked columns) strokes) (after : List Column) (i : Nat) :
    (Conversion.ofColumns Reading.standard across down count i (columns ++ after)).notes =
      columnNotes (inked columns) strokes ++
        (Conversion.ofColumns Reading.standard across down count (i + columns.length)
          after).notes := by
  induction columns generalizing strokes i with
  | nil =>
    cases shown
    rfl
  | cons c columns ih =>
    have place : i + (c :: columns).length = i + 1 + columns.length := by
      rw [List.length_cons]
      omega
    rw [List.cons_append, Conversion.ofColumns, place]
    cases blank : c.isBlank with
    | true =>
      rw [inked_of_blank columns blank] at shown ⊢
      rw [interpret_blank blank, ih shown]
    | false =>
      rw [inked_of_ink columns blank] at shown ⊢
      cases shown with
      | cons shows later =>
        rw [interpret_shown shows]
        simp [ih later, columnNotes, Meaning.note, Stroke.meaning]

theorem rules_of_strokes {i : Nat} {columns : List Column} {cs : List (Constraint α)}
    {strokes : List Stroke} (reads : Reads across down count i columns cs)
    (shown : List.Forall₂ Shows (inked columns) strokes) :
    cs.map (·.rule) = strokes.map (·.rule down) := by
  induction reads generalizing strokes with
  | nil i =>
    cases shown
    rfl
  | blank blank tail ih => exact ih (by rwa [inked_of_blank _ blank] at shown)
  | shown shows tail ih =>
    rw [inked_of_ink _ (shows_not_blank shows)] at shown
    cases shown with
    | cons shows' later => simp [ih later, shows_unique shows shows']

end

section
variable [Scalar α] {s : Sketch α} {samples : Nat} {across down : Scale α}

theorem convert_of_fault {fault : Fault α} (refused : s.scales ⟨samples⟩ = .error fault) :
    s.convert ⟨samples⟩ = ⟨[], .error fault⟩ := by
  simp [Sketch.convert, Sketch.convertWith, refused]

theorem convert_of_unreadable {before after : List Column} {c : Column} {strokes : List Stroke}
    (scales : s.scales ⟨samples⟩ = .ok (across, down)) (split : s.columns = before ++ c :: after)
    (shown : List.Forall₂ Shows (inked before) strokes) (readable : ∀ d ∈ before, Readable d)
    (unreadable : ¬ Readable c) :
    s.convert ⟨samples⟩ = ⟨columnNotes (inked before) strokes, .error (.unreadable c)⟩ := by
  have result : (Conversion.ofColumns Reading.standard across down samples 0 s.columns).result =
      .error (.unreadable c) := by
    rw [split]
    exact ofColumns_leftmost readable unreadable
  have notes : (Conversion.ofColumns Reading.standard across down samples 0 s.columns).notes =
      columnNotes (inked before) strokes := by
    rw [split, ofColumns_notes shown]
    simp [Conversion.ofColumns, interpret_unreadable unreadable]
  simp only [Sketch.convert, Sketch.convertWith, scales, Conversion.summarised, result, notes]

theorem convert_of_readable {strokes : List Stroke}
    (scales : s.scales ⟨samples⟩ = .ok (across, down))
    (shown : List.Forall₂ Shows (inked s.columns) strokes)
    (readable : ∀ c ∈ s.columns, Readable c) :
    ∃ cs, cs.map (·.rule) = strokes.map (·.rule down) ∧
      s.convert ⟨samples⟩ = ⟨columnNotes (inked s.columns) strokes ++
        [.converted s.ruler.width s.rows.length cs.length samples], .ok cs⟩ := by
  obtain ⟨cs, reads⟩ : ∃ cs, Reads across down samples 0 s.columns cs :=
    reads_of_readable 0 readable
  have notes : (Conversion.ofColumns Reading.standard across down samples 0 s.columns).notes =
      columnNotes (inked s.columns) strokes := by
    simpa [Conversion.ofColumns] using ofColumns_notes shown [] 0
  refine ⟨cs, rules_of_strokes reads shown, ?_⟩
  simp only [Sketch.convert, Sketch.convertWith, scales, Conversion.summarised,
    ofColumns_reads reads, notes]

end

theorem Subject.fallible_eq_check [Scalar α] {f : Subject σ α}
    (reports : ∀ x here message?, (f x here).1 ≠ .crash message?) (samples : Nat) (s : Sketch α)
    (start : σ) : f.checkFallible samples s start = f.check samples s start := by
  have same : f.reporting = f.catching := by
    funext x here
    have reported := reports x here
    simp only [reporting, catching]
    cases answer : (f x here).1 with
    | value y => rfl
    | error cause => rfl
    | crash message? => exact absurd answer (reported message?)
  rw [f.fallible_eq, f.check_eq, same]

/-- The log of a check of a function whose failures are all caught or reported. A sketch that is
    refused before its columns are read leaves no log. Where a column cannot be read, the log is
    the notes of the columns left of it. Otherwise it is the notes of all columns, the two
    summaries, and a line for each call that returned a value: a failure is the one call without a
    line, and a check that passes has a line for every sample. At the level of the summaries the
    log is just these. -/
theorem log_tells_run {f : Subject σ Float} {samples : Nat} {s : Sketch Float} {start : σ}
    {t : Trial σ Float}
    (checked : t = f.check samples s start ∨
      t = f.checkFallible samples s start ∧ ∀ x here message?, (f x here).1 ≠ .crash message?) :
    (∀ fault, s.scales ⟨samples⟩ = .error fault →
      logged .trace t.notes = [] ∧ logged .debug t.notes = [] ∧ t.calls = []) ∧
    ∀ across down, s.scales ⟨samples⟩ = .ok (across, down) →
      (∀ before c after, s.columns = before ++ c :: after → (∀ d ∈ before, Readable d) →
        ¬ Readable c →
          ∃ strokes, List.Forall₂ Shows (inked before) strokes ∧
            logged .trace t.notes = List.zipWith columnLine (inked before) strokes ∧
            logged .debug t.notes = [] ∧ t.calls = []) ∧
      ((∀ c ∈ s.columns, Readable c) →
        ∃ strokes cs made, List.Forall₂ Shows (inked s.columns) strokes ∧
          (s.convert ⟨samples⟩).result = .ok cs ∧
          cs.map (·.rule) = strokes.map (·.rule down) ∧
          made <+: plannedCalls cs ∧ t.calls = made.map Prod.snd ∧
          logged .trace t.notes = List.zipWith columnLine (inked s.columns) strokes ++
            (summaryLines s samples cs ++ f.toldLines made start) ∧
          logged .debug t.notes = summaryLines s samples cs ∧
          (t.Fails → (f.toldLines made start).length + 1 = t.calls.length) ∧
          (¬ t.Fails → (f.toldLines made start).length = t.calls.length) ∧
          (f.toldLines made start).length ≤ (cs.map (·.samples.length)).sum ∧
          (t.halt? = none →
            (f.toldLines made start).length = (cs.map (·.samples.length)).sum)) := by
  have run : t = s.trial ⟨samples⟩ f.catching start := by
    rcases checked with rfl | ⟨rfl, reports⟩
    · exact f.check_eq samples s start
    · rw [Subject.fallible_eq_check reports, f.check_eq]
  refine ⟨fun fault refused => ?_, fun across down scales => ⟨?_, fun readable => ?_⟩⟩
  · have converted := convert_of_fault refused
    rw [run, trial_of_fault f.catching start (congrArg Conversion.result converted), converted]
    exact ⟨rfl, rfl, rfl⟩
  · intro before c after split readable unreadable
    obtain ⟨strokes, shown⟩ := strokes_of_readable readable
    have converted := convert_of_unreadable scales split shown readable unreadable
    obtain ⟨trace, debug⟩ := columnNotes_lines (inked before) strokes
    rw [run, trial_of_fault f.catching start (congrArg Conversion.result converted), converted]
    exact ⟨strokes, shown, trace, debug, rfl⟩
  · obtain ⟨strokes, shown⟩ := strokes_of_readable readable
    obtain ⟨cs, rules, converted⟩ := convert_of_readable scales shown readable
    obtain ⟨made, tells⟩ := Trial.ofConstraints_tells f cs start
    have accepted := congrArg Conversion.result converted
    have ran : t = (Trial.ofConstraints f.catching cs start).after
        (columnNotes (inked s.columns) strokes ++ summaries s samples cs) := by
      rw [run, trial_of_constraints f.catching start accepted, converted]
      simp [summaries, totalSamples_eq_sum]
    have notes : t.notes = columnNotes (inked s.columns) strokes ++
        (summaries s samples cs ++ f.told made start) := by
      simp [ran, Trial.after, tells.notes]
    obtain ⟨columnTrace, columnDebug⟩ := columnNotes_lines (inked s.columns) strokes
    obtain ⟨summaryTrace, summaryDebug⟩ := summaries_lines s samples cs
    obtain ⟨toldTrace, toldDebug⟩ := f.told_lines made start
    have trace : logged .trace t.notes = List.zipWith columnLine (inked s.columns) strokes ++
        (summaryLines s samples cs ++ f.toldLines made start) := by
      rw [notes, logged_append, logged_append, columnTrace, summaryTrace, toldTrace]
    have debug : logged .debug t.notes = summaryLines s samples cs := by
      rw [notes, logged_append, logged_append, columnDebug, summaryDebug, toldDebug,
        List.nil_append, List.append_nil]
    have calls : t.calls = made.map Prod.snd := by simp [ran, Trial.after, tells.calls]
    refine ⟨strokes, cs, made, shown, accepted, rules, tells.along, calls, trace, debug, ?_⟩
    rw [calls, ran]
    simp only [List.length_map, ← plannedCalls_length, Subject.toldLines_length]
    exact ⟨tells.failed, tells.answered, tells.told_le, tells.told_of_pass⟩

def weary : Subject Nat Float := fun x calls =>
  (if calls < 2 then .value x else .error "tired", calls + 1)

def gappySteps : Sketch Float :=
  ⟨[⟨some 2, "  iX".toList⟩, ⟨none, "  i ".toList⟩, ⟨some 0, "X   ".toList⟩],
    ⟨"|  |".toList, [0, 3]⟩⟩

theorem weary_steps_told :
    (∀ x here message?, (weary x here).1 ≠ .crash message?) ∧
      (weary.checkFallible 1 gappySteps 0).Fails ∧
      logged .trace (weary.checkFallible 1 gappySteps 0).notes =
        [(.trace, "column \"  X\" -> exact_value"),
          (.trace, "column \"ii \" -> vertical_range_loose"),
          (.trace, "column \"X  \" -> exact_value"),
          (.debug, "converted 4x3 plot into 3 constraint(s) (1 sample(s) per character)"),
          (.debug, "evaluating 3 constraint(s) over 3 sample(s)"),
          (.trace, "exact: f(0) = 0, expected 0"),
          (.trace, "range: f(2) = 2, expected [0.5, 2.5]")] ∧
      logged .debug (weary.checkFallible 1 gappySteps 0).notes =
        [(.debug, "converted 4x3 plot into 3 constraint(s) (1 sample(s) per character)"),
          (.debug, "evaluating 3 constraint(s) over 3 sample(s)")] := by
  have reports : ∀ x here message?, (weary x here).1 ≠ .crash message? := by
    intro x here message?
    simp only [weary]
    split <;> simp
  have halts : (weary.checkFallible 1 gappySteps 0).halt? =
      some (.violated (.failed 3 "tired")) := by decide +kernel
  have calls : (weary.checkFallible 1 gappySteps 0).calls = [0, 2, 3] := by decide +kernel
  have accepted : (gappySteps.convert ⟨1⟩).result =
      .ok [⟨[0], .equals 0⟩, ⟨[2], .within 0.5 2.5⟩, ⟨[3], .equals 2⟩] := by decide +kernel
  obtain ⟨across, down, scales, reads⟩ := (gappySteps.convert_ok_iff 1 _).mp accepted
  obtain ⟨_, ran⟩ := log_tells_run (Or.inr ⟨rfl, reports⟩)
  obtain ⟨strokes, cs, made, shown, converted, _, along, called, trace, debug, _⟩ :=
    (ran across down scales).2 (readable_of_reads reads)
  cases accepted.symm.trans converted
  -- all planned calls are made, since there are as many
  have whole : made = [(.equals 0, 0), (.within 0.5 2.5, 2), (.equals 2, 3)] := by
    refine along.eq_of_length ?_
    rw [calls] at called
    have count := congrArg List.length called
    rw [List.length_map] at count
    exact count.symm
  have drawn : strokes = [.point 2, .band ⟨0, 1⟩, .point 0] := by
    have columns : inked gappySteps.columns = ["  X".toList, "ii ".toList, "X  ".toList] := by
      decide +kernel
    obtain ⟨_, _, left⟩ := (point_iff_shows "  X".toList (.point 2)).mp (by decide +kernel)
    obtain ⟨_, _, middle⟩ := (band_iff_shows "ii ".toList (.band ⟨0, 1⟩)).mp (by decide +kernel)
    obtain ⟨_, _, right⟩ := (point_iff_shows "X  ".toList (.point 0)).mp (by decide +kernel)
    rw [columns] at shown
    exact strokes_unique shown (.cons left (.cons middle (.cons right .nil)))
  refine ⟨reports, ⟨3, "tired", halts⟩, ?_, ?_⟩
  · rw [trace, whole, drawn]
    decide +kernel
  · rw [debug]
    decide +kernel

end CurveSketch
