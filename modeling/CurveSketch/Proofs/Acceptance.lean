import CurveSketch.Sketch.Conversion
import CurveSketch.Proofs.Axes
import CurveSketch.Proofs.Grammar
import CurveSketch.Proofs.Transpose

/- Which sketches are accepted, and which fault is reported of the others. -/
namespace CurveSketch
variable {α : Type}

def LeftmostUnreadable (columns : List Column) (c : Column) : Prop :=
  ∃ before after, columns = before ++ c :: after ∧ (∀ c ∈ before, Readable c) ∧ ¬ Readable c

def readableColumns (columns : List Column) : Requirement α :=
  ⟨∀ c ∈ columns, Readable c,
    fun fault => ∃ c, fault = .unreadable c ∧ LeftmostUnreadable columns c⟩

theorem leftmost_of_not_all {β : Type} {holds : β → Prop} {members : List β}
    (bad : ¬ ∀ b ∈ members, holds b) :
    ∃ before b after, members = before ++ b :: after ∧ (∀ a ∈ before, holds a) ∧ ¬ holds b := by
  induction members with
  | nil => simp at bad
  | cons first rest ih =>
    by_cases good : holds first
    · have later : ¬ ∀ b ∈ rest, holds b := fun all =>
        bad (List.forall_mem_cons.mpr ⟨good, all⟩)
      obtain ⟨before, b, after, split, earlier, fails⟩ := ih later
      exact ⟨first :: before, b, after, by simp [split],
        List.forall_mem_cons.mpr ⟨good, earlier⟩, fails⟩
    · exact ⟨[], first, rest, rfl, by simp, good⟩

theorem leftmost_exists {columns : List Column} (bad : ¬ ∀ c ∈ columns, Readable c) :
    ∃ c, LeftmostUnreadable columns c := by
  obtain ⟨before, c, after, split, earlier, unreadable⟩ := leftmost_of_not_all bad
  exact ⟨c, before, after, split, earlier, unreadable⟩

variable [Scalar α]

/-- The constraints of columns that stand at position `i` and further right: one for each column
    that shows a stroke, none for a blank one. -/
inductive Reads (across down : Scale α) (count : Nat) :
    Nat → List Column → List (Constraint α) → Prop where
  | nil (i : Nat) : Reads across down count i [] []
  | blank {i : Nat} {c : Column} {rest : List Column} {cs : List (Constraint α)}
      (blank : c.isBlank = true) (tail : Reads across down count (i + 1) rest cs) :
      Reads across down count i (c :: rest) cs
  | shown {i : Nat} {c : Column} {s : Stroke} {rest : List Column} {cs : List (Constraint α)}
      (shows : Shows c s) (tail : Reads across down count (i + 1) rest cs) :
      Reads across down count i (c :: rest) (⟨across.samples count i, s.rule down⟩ :: cs)

section
variable {across down : Scale α} {count : Nat}

theorem ofColumns_read {readings : List (Reading α)} {c : Column} {meaning? : Option (Meaning α)}
    (read : c.interpret readings = .ok meaning?) (rest : List Column) (i : Nat) :
    (Conversion.ofColumns readings across down count i (c :: rest)).result =
      (Conversion.ofColumns readings across down count (i + 1) rest).result.map
        ((meaning?.map (·.constraint (across.samples count i) down)).toList ++ ·) := by
  rw [Conversion.ofColumns, read]
  cases meaning? with
  | some meaning => rfl
  | none => cases (Conversion.ofColumns readings across down count (i + 1) rest).result <;> rfl

theorem ofColumns_stops {readings : List (Reading α)} {before after : List Column} {c : Column}
    {fault : Fault α} (earlier : ∀ d ∈ before, ∃ meaning?, d.interpret readings = .ok meaning?)
    (stops : c.interpret readings = .error fault) (i : Nat) :
    (Conversion.ofColumns readings across down count i (before ++ c :: after)).result =
      .error fault := by
  induction before generalizing i with
  | nil => rw [List.nil_append, Conversion.ofColumns, stops]
  | cons d before ih =>
    obtain ⟨⟨meaning?, read⟩, later⟩ := List.forall_mem_cons.mp earlier
    rw [List.cons_append, ofColumns_read read, ih later (i + 1)]
    rfl

theorem ofColumns_blank {i : Nat} {c : Column} (rest : List Column) (blank : c.isBlank = true) :
    (Conversion.ofColumns Reading.standard across down count i (c :: rest)).result =
      (Conversion.ofColumns Reading.standard across down count (i + 1) rest).result := by
  rw [Conversion.ofColumns, interpret_blank blank]

theorem ofColumns_shown {i : Nat} {c : Column} {s : Stroke} (rest : List Column)
    (shows : Shows c s) :
    (Conversion.ofColumns Reading.standard across down count i (c :: rest)).result =
      (Conversion.ofColumns Reading.standard across down count (i + 1) rest).result.map
        (⟨across.samples count i, s.rule down⟩ :: ·) :=
  ofColumns_read (interpret_shown shows) rest i

theorem ofColumns_reads {i : Nat} {columns : List Column} {cs : List (Constraint α)}
    (reads : Reads across down count i columns cs) :
    (Conversion.ofColumns Reading.standard across down count i columns).result = .ok cs := by
  induction reads with
  | nil i => rfl
  | blank blank tail ih => rw [ofColumns_blank _ blank, ih]
  | shown shows tail ih =>
    rw [ofColumns_shown _ shows, ih]
    rfl

theorem readable_of_reads {i : Nat} {columns : List Column} {cs : List (Constraint α)}
    (reads : Reads across down count i columns cs) : ∀ c ∈ columns, Readable c := by
  induction reads with
  | nil i => simp
  | blank blank tail ih => exact List.forall_mem_cons.mpr ⟨Or.inl blank, ih⟩
  | shown shows tail ih => exact List.forall_mem_cons.mpr ⟨Or.inr ⟨_, shows⟩, ih⟩

theorem reads_of_readable (i : Nat) {columns : List Column}
    (readable : ∀ c ∈ columns, Readable c) : ∃ cs, Reads across down count i columns cs := by
  induction columns generalizing i with
  | nil => exact ⟨[], .nil i⟩
  | cons c rest ih =>
    obtain ⟨cs, tail⟩ := ih (i + 1) fun d member => readable d (by simp [member])
    rcases readable c (by simp) with blank | ⟨s, shows⟩
    · exact ⟨cs, .blank blank tail⟩
    · exact ⟨_, .shown shows tail⟩

theorem reads_forall {i : Nat} {columns : List Column} {cs : List (Constraint α)}
    (reads : Reads across down count i columns cs) (holds : Constraint α → Prop) :
    (∀ c ∈ cs, holds c) ↔ ∀ k column s, columns[k]? = some column → Shows column s →
      holds ⟨across.samples count (i + k), s.rule down⟩ := by
  induction reads with
  | nil i => simp
  | @blank i c rest cs blank tail ih =>
    rw [ih]
    constructor
    · intro later k column s place shows
      cases k with
      | zero =>
        cases Option.some.inj place
        exact absurd blank (by simp [shows_not_blank shows])
      | succ k => simpa [Nat.add_assoc, Nat.add_comm 1] using later k column s place shows
    · intro all k column s place shows
      simpa [Nat.add_assoc, Nat.add_comm 1] using all (k + 1) column s place shows
  | @shown i c s rest cs shows tail ih =>
    rw [List.forall_mem_cons, ih]
    constructor
    · intro both k column s' place shows'
      obtain ⟨first, later⟩ := both
      cases k with
      | zero =>
        cases Option.some.inj place
        rwa [shows_unique shows' shows]
      | succ k => simpa [Nat.add_assoc, Nat.add_comm 1] using later k column s' place shows'
    · intro all
      refine ⟨all 0 c s rfl shows, fun k column s' place shows' => ?_⟩
      simpa [Nat.add_assoc, Nat.add_comm 1] using all (k + 1) column s' place shows'

theorem ofColumns_leftmost {i : Nat} {before after : List Column} {c : Column}
    (readable : ∀ d ∈ before, Readable d) (unreadable : ¬ Readable c) :
    (Conversion.ofColumns Reading.standard across down count i (before ++ c :: after)).result =
      .error (.unreadable c) := by
  refine ofColumns_stops ?_ (interpret_unreadable unreadable) i
  intro d member
  rcases readable d member with blank | ⟨s, shows⟩
  · exact ⟨none, interpret_blank blank _⟩
  · exact ⟨_, interpret_shown shows⟩

theorem ofColumns_decides (i : Nat) (columns : List Column) :
    Decides (Conversion.ofColumns Reading.standard across down count i columns).result
      [readableColumns columns] := by
  by_cases readable : ∀ c ∈ columns, Readable c
  · obtain ⟨cs, reads⟩ : ∃ cs, Reads across down count i columns cs :=
      reads_of_readable i readable
    rw [ofColumns_reads reads]
    exact decides_met readable (decides_nil cs)
  · have result (c : Column) (leftmost : LeftmostUnreadable columns c) :
        (Conversion.ofColumns Reading.standard across down count i columns).result =
          .error (.unreadable c) := by
      obtain ⟨before, after, rfl, earlier, unreadable⟩ := leftmost
      exact ofColumns_leftmost earlier unreadable
    obtain ⟨c, leftmost⟩ := leftmost_exists readable
    have reported := result c leftmost
    rw [reported]
    refine decides_unmet readable fun fault => ⟨?_, ?_⟩
    · intro reported
      obtain ⟨d, rfl, leftmost'⟩ := reported
      exact Except.error.inj ((result d leftmost').symm.trans reported)
    · rintro rfl
      exact ⟨c, rfl, leftmost⟩

theorem reads_of_ofColumns {i : Nat} {columns : List Column} {cs : List (Constraint α)}
    (accepted :
      (Conversion.ofColumns Reading.standard across down count i columns).result = .ok cs) :
    Reads across down count i columns cs := by
  have readable := (ofColumns_decides i columns).accepts.mp ⟨cs, accepted⟩
  obtain ⟨cs', reads⟩ : ∃ cs', Reads across down count i columns cs' :=
    reads_of_readable i (readable _ (List.mem_singleton_self _))
  rw [ofColumns_reads reads] at accepted
  cases accepted
  exact reads

end

namespace Sketch

def tickCount (s : Sketch α) : Nat := (s.ruler.marks.filter (· != blank)).length

def labels (s : Sketch α) : List α := s.rows.filterMap (·.label?)

def acrossRequirements (s : Sketch α) : List (Requirement α) :=
  [⟨s.tickCount = s.ruler.values.length,
      (· = .unpairedMarks s.tickCount s.ruler.values.length)⟩,
    ⟨2 ≤ s.tickCount, (· = .tooFewTicks .x s.tickCount)⟩,
    ⟨(∃ m ∈ s.ruler.marks.head?, m ≠ blank) ∧ ∃ m ∈ s.ruler.marks.getLast?, m ≠ blank,
      (· = .openEnds .x)⟩,
    ⟨List.IsChain (fun a b => a < b) s.ruler.values,
      fun fault => ∃ a b, fault = .disordered .x a b ∧
        LeftmostBreak (fun a b => a < b) s.ruler.values a b⟩]

def downRequirements (s : Sketch α) : List (Requirement α) :=
  [⟨2 ≤ s.labels.length, (· = .tooFewTicks .y s.labels.length)⟩,
    ⟨(∃ row ∈ s.rows.head?, row.label?.isSome) ∧ ∃ row ∈ s.rows.getLast?, row.label?.isSome,
      (· = .openEnds .y)⟩,
    ⟨List.IsChain (fun a b => zero < a - b) s.labels,
      fun fault => ∃ a b, fault = .disordered .y a b ∧
        LeftmostBreak (fun a b => zero < a - b) s.labels a b⟩]

def scaleRequirements (s : Sketch α) (samples : Nat) : List (Requirement α) :=
  [⟨1 ≤ samples, (· = .tooFewSamples samples)⟩,
    ⟨∀ row ∈ s.rows, row.glyphs.length = s.ruler.marks.length, (· = .unequalWidths)⟩]
  ++ (s.acrossRequirements ++ s.downRequirements)

/-- Everything that conversion asks of a sketch, in order of priority. -/
def requirements (s : Sketch α) (samples : Nat) : List (Requirement α) :=
  s.scaleRequirements samples
    ++ [readableColumns ((List.range s.ruler.marks.length).map s.column)]

omit [Scalar α] in
theorem tickCount_eq (s : Sketch α) : s.ruler.tickCount = s.tickCount :=
  List.countP_eq_length_filter

theorem across_decides (s : Sketch α) :
    Decides s.across s.acrossRequirements := by
  unfold across Ruler.scale
  rw [tickCount_eq]
  refine decides_guard fun paired => ?_
  rw [← tickCount_eq] at paired
  have values : s.ruler.slots.filterMap id = s.ruler.values := pairMarks_values paired
  have ends := closedEnds_iff (pairMarks_ticks paired)
  have decided := axis_scale_decides Axis.x s.ruler.slots
  rw [Axis.requirements, values] at decided
  simp only [Ruler.slots, ends, bne_iff_ne, Axis.inOrder, decide_eq_true_eq, ← paired,
    tickCount_eq] at decided
  exact decided

theorem down_decides (s : Sketch α) :
    Decides s.down s.downRequirements := by
  have values : (s.rows.map (·.label?)).filterMap id = s.labels := by
    rw [List.filterMap_map]
    rfl
  have shown : (s.rows.map (·.label?)).map Option.isSome = s.rows.map (·.label?.isSome) :=
    List.map_map
  have ends := closedEnds_iff shown
  have decided := axis_scale_decides Axis.y (s.rows.map (·.label?))
  rw [Axis.requirements, values] at decided
  simp only [ends, Axis.inOrder, decide_eq_true_eq] at decided
  exact decided

omit [Scalar α] in
theorem widths_decided (s : Sketch α) :
    Decides s.checkWidths
      [⟨∀ row ∈ s.rows, row.glyphs.length = s.ruler.marks.length, (· = .unequalWidths)⟩] := by
  have meaning : (s.rows.all fun row => row.width == s.ruler.width) = true ↔
      ∀ row ∈ s.rows, row.glyphs.length = s.ruler.marks.length := by
    simp [Row.width, Ruler.width]
  unfold checkWidths
  simp only [meaning]
  exact decides_guard fun _ => decides_nil ()

omit [Scalar α] in
theorem options_decided (samples : Nat) :
    Decides (Options.validate ⟨samples⟩ : Except (Fault α) Unit)
      [⟨1 ≤ samples, (· = .tooFewSamples samples)⟩] := by
  unfold Options.validate
  by_cases none : samples = 0
  · rw [if_pos none]
    exact decides_unmet (by simp [none]) fun _ => Iff.rfl
  · rw [if_neg none]
    exact decides_met (Nat.one_le_iff_ne_zero.mpr none) (decides_nil ())

theorem scales_decided (s : Sketch α) (samples : Nat) :
    Decides (s.scales ⟨samples⟩) (s.scaleRequirements samples) := by
  have axes := decides_bind s.across_decides fun across _ =>
    decides_bind s.down_decides fun down _ => decides_nil (across, down)
  rw [List.append_nil] at axes
  have all := decides_bind (options_decided samples) fun _ _ =>
    decides_bind s.widths_decided fun _ _ => axes
  exact all

theorem columns_of_scales {s : Sketch α} {samples : Nat} {scales : Scale α × Scale α}
    (accepted : s.scales ⟨samples⟩ = .ok scales) :
    s.columns = (List.range s.ruler.marks.length).map s.column := by
  have all := (s.scales_decided samples).accepts.mp ⟨scales, accepted⟩
  simp only [scaleRequirements, acrossRequirements, downRequirements, List.cons_append,
    List.nil_append, all_met_cons] at all
  obtain ⟨_, widths, _, _, _, _, labels, _⟩ := all
  refine columns_of_widths ?_ widths
  intro empty
  simp [Sketch.labels, empty] at labels

theorem scales_ok_iff (s : Sketch α) (samples : Nat) (across down : Scale α) :
    s.scales ⟨samples⟩ = .ok (across, down) ↔
      1 ≤ samples ∧ s.checkWidths = .ok () ∧ s.across = .ok across ∧ s.down = .ok down := by
  unfold scales Options.validate
  cases s.checkWidths <;> cases s.across <;> cases s.down <;> cases samples <;>
    simp [bind, Except.bind, pure, Except.pure]

theorem convertWith_result (s : Sketch α) (options : Options) (readings : List (Reading α)) :
    (s.convertWith options readings).result = s.scales options >>= fun scales =>
      (Conversion.ofColumns readings scales.1 scales.2 options.samples 0 s.columns).result := by
  unfold convertWith
  cases s.scales options with
  | error fault => rfl
  | ok scales =>
    obtain ⟨across, down⟩ := scales
    simp only [bind, Except.bind, Conversion.summarised]
    split <;> rename_i result <;> exact result.symm

theorem convert_result (s : Sketch α) (options : Options) :
    (s.convert options).result = s.scales options >>= fun scales =>
      (Conversion.ofColumns Reading.standard scales.1 scales.2 options.samples 0
        s.columns).result := s.convertWith_result options Reading.standard

theorem convert_ok_iff (s : Sketch α) (samples : Nat) (cs : List (Constraint α)) :
    (s.convert ⟨samples⟩).result = .ok cs ↔
      ∃ across down, s.scales ⟨samples⟩ = .ok (across, down) ∧
        Reads across down samples 0 s.columns cs := by
  rw [convert_result]
  cases scales : s.scales ⟨samples⟩ with
  | error fault => simp [bind, Except.bind]
  | ok pair =>
    obtain ⟨across, down⟩ := pair
    simp only [bind, Except.bind, Except.ok.injEq, Prod.mk.injEq]
    constructor
    · intro result
      exact ⟨across, down, ⟨rfl, rfl⟩, reads_of_ofColumns result⟩
    · intro found
      obtain ⟨_, _, ⟨rfl, rfl⟩, reads⟩ := found
      exact ofColumns_reads reads

/-- What holds of every constraint is what holds of every stroke in the picture. -/
theorem constraints_of_strokes {s : Sketch α} {samples : Nat} {across down : Scale α}
    {cs : List (Constraint α)} (scales : s.scales ⟨samples⟩ = .ok (across, down))
    (reads : Reads across down samples 0 s.columns cs) (holds : Constraint α → Prop) :
    (∀ c ∈ cs, holds c) ↔ ∀ i < s.ruler.marks.length, ∀ stroke, Shows (s.column i) stroke →
      holds ⟨across.samples samples i, stroke.rule down⟩ := by
  rw [columns_of_scales scales] at reads
  rw [reads_forall reads holds]
  constructor
  · intro all i inside stroke shows
    have place : ((List.range s.ruler.marks.length).map s.column)[i]? = some (s.column i) := by
      simp [inside]
    simpa using all i (s.column i) stroke place shows
  · intro all i column stroke place shows
    obtain ⟨inside, rfl⟩ : i < s.ruler.marks.length ∧ s.column i = column := by
      simpa [List.getElem?_range, List.getElem?_eq_some_iff] using place
    simpa using all i inside stroke shows

theorem column_readable {s : Sketch α} {samples : Nat} {across down : Scale α}
    {cs : List (Constraint α)} (scales : s.scales ⟨samples⟩ = .ok (across, down))
    (reads : Reads across down samples 0 s.columns cs) {i : Nat}
    (inside : i < s.ruler.marks.length) : Readable (s.column i) := by
  rw [columns_of_scales scales] at reads
  exact readable_of_reads reads _ (List.mem_map_of_mem (List.mem_range.mpr inside))

theorem accepted_of_readable {s : Sketch α} {samples : Nat} {across down : Scale α}
    (scales : s.scales ⟨samples⟩ = .ok (across, down))
    (readable : ∀ i < s.ruler.marks.length, Readable (s.column i)) :
    ∃ cs, (s.convert ⟨samples⟩).result = .ok cs := by
  have all : ∀ c ∈ s.columns, Readable c := by
    rw [columns_of_scales scales]
    simpa using readable
  obtain ⟨cs, reads⟩ : ∃ cs, Reads across down samples 0 s.columns cs := reads_of_readable 0 all
  exact ⟨cs, (s.convert_ok_iff samples cs).mpr ⟨across, down, scales, reads⟩⟩

theorem conversion_decided (s : Sketch α) (samples : Nat) :
    ((∃ constraints, (s.convert ⟨samples⟩).result = .ok constraints) ↔
        AllMet (s.requirements samples)) ∧
      ∀ fault, (s.convert ⟨samples⟩).result = .error fault ↔
        FirstUnmet (s.requirements samples) fault := by
  have decided : Decides (s.convert ⟨samples⟩).result (s.requirements samples) := by
    rw [convert_result]
    refine decides_bind (s.scales_decided samples) fun scales accepted => ?_
    rw [columns_of_scales accepted]
    exact ofColumns_decides 0 _
  exact ⟨decided.accepts, decided.refuses⟩

end Sketch
end CurveSketch
