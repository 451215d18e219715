import CurveSketch.Proofs.Acceptance
import CurveSketch.Proofs.Doubles
import CurveSketch.Proofs.Trials

/- The verdict of a check, in terms of the picture alone. -/
namespace CurveSketch
variable {σ α : Type}

section
variable {f : α → Outcome α} {xs ys : List α}

theorem exists_output_iff (outcomes : xs.map f = ys.map .value) (holds : α → Prop) :
    (∃ y ∈ ys, holds y) ↔ ∃ x ∈ xs, ∃ y, f x = .value y ∧ holds y := by
  have member (y : α) : y ∈ ys ↔ ∃ x ∈ xs, f x = .value y := by
    have mapped : Outcome.value y ∈ ys.map .value ↔ y ∈ ys := by simp
    rw [← mapped, ← outcomes, List.mem_map]
  constructor
  · intro found
    obtain ⟨y, inside, good⟩ := found
    obtain ⟨x, sampled, outcome⟩ := (member y).mp inside
    exact ⟨x, sampled, y, outcome, good⟩
  · intro found
    obtain ⟨x, sampled, y, outcome, good⟩ := found
    exact ⟨y, (member y).mpr ⟨x, sampled, outcome⟩, good⟩

theorem all_outputs_iff (holds : α → Prop) :
    (∃ ys : List α, xs.map f = ys.map .value ∧ ∀ y ∈ ys, holds y) ↔
      ∀ x ∈ xs, ∃ y, f x = .value y ∧ holds y := by
  induction xs with
  | nil => simp
  | cons x xs ih =>
    rw [List.forall_mem_cons, ← ih]
    constructor
    · intro all_met
      obtain ⟨ys, outcomes, good⟩ := all_met
      cases ys with
      | nil => simp at outcomes
      | cons y ys =>
        obtain ⟨head, tail⟩ := List.cons.inj outcomes
        exact ⟨⟨y, head, good y (by simp)⟩, ys, tail, fun z member => good z (by simp [member])⟩
    · intro both
      obtain ⟨⟨y, head, first⟩, ys, tail, later⟩ := both
      exact ⟨y :: ys, by simp [head, tail], List.forall_mem_cons.mpr ⟨first, later⟩⟩

end

variable [Scalar α]

theorem trial_of_constraints {s : Sketch α} {options : Options} {cs : List (Constraint α)}
    (f : Probe σ α) (start : σ) (accepted : (s.convert options).result = .ok cs) :
    s.trial options f start = (Trial.ofConstraints f cs start).after
      ((s.convert options).notes ++ [.evaluating cs.length (totalSamples cs)]) := by
  simp only [Sketch.trial, accepted]

theorem trial_of_fault {s : Sketch α} {options : Options} {fault : Fault α}
    (f : Probe σ α) (start : σ) (refused : (s.convert options).result = .error fault) :
    s.trial options f start =
      ⟨[], [], (s.convert options).notes, some (.malformed fault), start⟩ := by
  simp only [Sketch.trial, refused]

theorem trial_passes_iff (s : Sketch α) (options : Options) (f : Probe σ α) (start : σ) :
    (s.trial options f start).halt? = none ↔
      ∃ cs, (s.convert options).result = .ok cs ∧
        (Trial.ofConstraints f cs start).halt? = none := by
  cases result : (s.convert options).result with
  | error fault => simp [trial_of_fault f start result]
  | ok cs => simp [trial_of_constraints f start result, Trial.after]

theorem Subject.check_eq (f : Subject σ α) (samples : Nat) (s : Sketch α) (start : σ) :
    f.check samples s start = s.trial ⟨samples⟩ f.catching start := rfl

theorem Sketch.check_calls {s : Sketch α} {samples : Nat} {cs : List (Constraint α)}
    (f : Subject σ α) (start : σ) (accepted : (s.convert ⟨samples⟩).result = .ok cs)
    (passes : (f.check samples s start).halt? = none) :
    (f.check samples s start).calls = cs.flatMap (·.samples) := by
  have trial := trial_of_constraints f.catching start accepted
  rw [f.check_eq, trial] at passes ⊢
  exact Trial.calls_of_pass passes

/-- What a column asks of a function at the samples `xs`, on a scale of rows. -/
structure ColumnHolds (f : α → Outcome α) (xs : List α) (down : Scale α) (c : Column) : Prop where
  returns : c.isBlank = false → ∀ x ∈ xs, ∃ y, f x = .value y
  exact : ∀ row, Spans c 'X' ⟨row, row⟩ →
    ∀ x ∈ xs, ∃ y, f x = .value y ∧ (y == (down.cell row).center) = true
  range : ∀ run, Spans c 'i' run ∨ Spans c 'I' run →
    ∀ x ∈ xs, ∃ y, f x = .value y ∧
      (down.cell run.bottom).lower ≤ y ∧ y ≤ (down.cell run.top).upper
  envelope : ∀ run, Spans c 'I' run → 2 ≤ run.bottom - run.top →
    (∃ x ∈ xs, ∃ y, f x = .value y ∧ (down.cell (run.top + 1)).upper < y) ∧
      ∃ x ∈ xs, ∃ y, f x = .value y ∧ y < (down.cell (run.bottom - 1)).lower

theorem rule_met_iff (f : α → Outcome α) (xs : List α) (rule : Rule α) :
    (∃ ys, xs.map f = ys.map .value ∧ rule.Met ys) ↔
      (∀ x ∈ xs, ∃ y, f x = .value y ∧ rule.Admits y) ∧
        match rule with
        | .spanning _ _ innerLow innerHigh =>
          (∃ x ∈ xs, ∃ y, f x = .value y ∧ innerHigh < y) ∧
            ∃ x ∈ xs, ∃ y, f x = .value y ∧ y < innerLow
        | _ => True := by
  rw [← all_outputs_iff]
  constructor
  · intro met
    obtain ⟨ys, outcomes, admits, spanned⟩ := met
    refine ⟨⟨ys, outcomes, admits⟩, ?_⟩
    cases rule with
    | equals y => trivial
    | within low high => trivial
    | spanning low high innerLow innerHigh =>
      exact ⟨(exists_output_iff outcomes _).mp spanned.1,
        (exists_output_iff outcomes _).mp spanned.2⟩
  · intro met
    obtain ⟨⟨ys, outcomes, admits⟩, spanned⟩ := met
    refine ⟨ys, outcomes, admits, ?_⟩
    cases rule with
    | equals y => trivial
    | within low high => trivial
    | spanning low high innerLow innerHigh =>
      exact ⟨(exists_output_iff outcomes _).mpr spanned.1,
        (exists_output_iff outcomes _).mpr spanned.2⟩

theorem column_holds_of_point {f : α → Outcome α} {xs : List α} {down : Scale α} {c : Column}
    {row : Nat} (shows : Shows c (.point row)) :
    ColumnHolds f xs down c ↔
      ∀ x ∈ xs, ∃ y, f x = .value y ∧ (y == (down.cell row).center) = true := by
  have only (s : Stroke) (shows' : Shows c s) : s = .point row := shows_unique shows' shows
  constructor
  · intro holds
    exact holds.exact row shows
  · intro outputs
    refine ⟨fun _ x sampled => ?_, ?_, ?_, ?_⟩
    · obtain ⟨y, outcome, _⟩ := outputs x sampled
      exact ⟨y, outcome⟩
    · intro row' spans
      cases only (.point row') spans
      exact outputs
    · intro run spans
      rcases spans with spans | spans
      · cases only (.band run) spans
      · cases only (.line run) spans
    · intro run spans
      cases only (.line run) spans

theorem column_holds_of_run {f : α → Outcome α} {xs : List α} {down : Scale α} {c : Column}
    {s : Stroke} {run : Run} (drawn : s = .band run ∨ s = .line run) (shows : Shows c s) :
    ColumnHolds f xs down c ↔
      (∀ x ∈ xs, ∃ y, f x = .value y ∧
        (down.cell run.bottom).lower ≤ y ∧ y ≤ (down.cell run.top).upper) ∧
      (s = .line run → 2 ≤ run.bottom - run.top →
        (∃ x ∈ xs, ∃ y, f x = .value y ∧ (down.cell (run.top + 1)).upper < y) ∧
          ∃ x ∈ xs, ∃ y, f x = .value y ∧ y < (down.cell (run.bottom - 1)).lower) := by
  have only (s' : Stroke) (shows' : Shows c s') : s' = s := shows_unique shows' shows
  have same (run' : Run) (spans : Spans c 'i' run' ∨ Spans c 'I' run') : run' = run := by
    rcases spans with spans | spans
    · cases only (.band run') spans
      rcases drawn with band | line
      · exact Stroke.band.inj band
      · cases line
    · cases only (.line run') spans
      rcases drawn with band | line
      · cases band
      · exact Stroke.line.inj line
  constructor
  · intro holds
    refine ⟨?_, ?_⟩
    · rcases drawn with rfl | rfl
      · exact holds.range run (Or.inl shows)
      · exact holds.range run (Or.inr shows)
    · intro line tall
      subst line
      exact holds.envelope run shows tall
  · intro outputs
    obtain ⟨range, spanned⟩ := outputs
    refine ⟨fun _ x sampled => ?_, ?_, ?_, ?_⟩
    · obtain ⟨y, outcome, _⟩ := range x sampled
      exact ⟨y, outcome⟩
    · intro row spans
      cases only (.point row) spans
      rcases drawn with band | line
      · cases band
      · cases line
    · intro run' spans
      rw [same run' spans]
      exact range
    · intro run' spans tall
      have line := only (.line run') spans
      rw [same run' (Or.inr spans)] at line tall ⊢
      exact spanned line.symm tall

theorem column_holds_of_shown {f : α → Outcome α} {xs : List α} {down : Scale α} {c : Column}
    {s : Stroke} (shows : Shows c s) :
    ColumnHolds f xs down c ↔ ∃ ys, xs.map f = ys.map .value ∧ (s.rule down).Met ys := by
  rw [rule_met_iff]
  cases s with
  | point row => simpa [Stroke.rule, Rule.Admits] using column_holds_of_point shows
  | band run =>
    simpa [Stroke.rule, Stroke.outer, Rule.Admits] using
      column_holds_of_run (s := .band run) (Or.inl rfl) shows
  | line run =>
    have ordered : run.top ≤ run.bottom := shows.ordered
    rw [column_holds_of_run (Or.inr rfl) shows]
    by_cases tall : 2 ≤ run.bottom - run.top
    · have thick : ¬ run.height < Stroke.thick := by
        unfold Run.height Stroke.thick
        omega
      simp [Stroke.rule, thick, tall, Rule.Admits]
    · have thin : run.height < Stroke.thick := by
        unfold Run.height Stroke.thick
        omega
      simp [Stroke.rule, Stroke.outer, thin, tall, Rule.Admits]

theorem column_holds_of_blank {f : α → Outcome α} {xs : List α} {down : Scale α} {c : Column}
    (blank : c.isBlank = true) : ColumnHolds f xs down c := by
  have nothing (s : Stroke) : ¬ Shows c s := fun shows => by
    simp [shows_not_blank shows] at blank
  refine ⟨by simp [blank], fun row spans => ?_, fun run spans => ?_, fun run spans => ?_⟩
  · exact absurd spans (nothing (.point row))
  · rcases spans with spans | spans
    · exact absurd spans (nothing (.band run))
    · exact absurd spans (nothing (.line run))
  · exact absurd spans (nothing (.line run))

theorem column_holds_iff {f : α → Outcome α} {xs : List α} {down : Scale α} {c : Column}
    (readable : Readable c) :
    ColumnHolds f xs down c ↔
      ∀ s, Shows c s → ∃ ys, xs.map f = ys.map .value ∧ (s.rule down).Met ys := by
  constructor
  · intro holds s shows
    exact (column_holds_of_shown shows).mp holds
  · intro all
    rcases readable with blank | ⟨s, shows⟩
    · exact column_holds_of_blank blank
    · exact (column_holds_of_shown shows).mpr (all s shows)

theorem constraints_hold_iff {f : α → Outcome α} {s : Sketch α} {samples : Nat}
    {across down : Scale α} {cs : List (Constraint α)}
    (scales : s.scales ⟨samples⟩ = .ok (across, down))
    (reads : Reads across down samples 0 s.columns cs) :
    (∀ c ∈ cs, ∃ ys, c.samples.map f = ys.map .value ∧ c.rule.Met ys) ↔
      ∀ i < s.ruler.marks.length,
        ColumnHolds f (across.samples samples i) down (s.column i) := by
  rw [Sketch.constraints_of_strokes scales reads
    fun c => ∃ ys, c.samples.map f = ys.map .value ∧ c.rule.Met ys]
  constructor
  · intro all i inside
    rw [column_holds_iff (Sketch.column_readable scales reads inside)]
    exact all i inside
  · intro all i inside stroke shows
    exact (column_holds_of_shown shows).mp (all i inside)

theorem steady_check_passes_iff (f : α → Outcome α) (samples : Nat) (s : Sketch α)
    (start : σ) :
    ((Subject.steady f).check samples s start).halt? = none ↔
      (∃ cs, (s.convert ⟨samples⟩).result = .ok cs) ∧
        ∀ across down, s.across = .ok across → s.down = .ok down →
          ∀ i < s.ruler.marks.length,
            ColumnHolds f (across.samples samples i) down (s.column i) := by
  have passes : ((Subject.steady f).check samples s start).halt? = none ↔
      ∃ cs, (s.convert ⟨samples⟩).result = .ok cs ∧
        (Trial.ofConstraints (Subject.steady f).catching cs start).halt? = none :=
    trial_passes_iff s ⟨samples⟩ (Subject.steady f).catching start
  simp only [passes, steady_passes_iff]
  constructor
  · intro passes
    obtain ⟨cs, accepted, all⟩ := passes
    refine ⟨⟨cs, accepted⟩, fun across down isAcross isDown => ?_⟩
    obtain ⟨across', down', scales, reads⟩ := (s.convert_ok_iff samples cs).mp accepted
    obtain ⟨_, _, isAcross', isDown'⟩ := (s.scales_ok_iff samples across' down').mp scales
    rw [isAcross] at isAcross'
    rw [isDown] at isDown'
    cases isAcross'
    cases isDown'
    exact (constraints_hold_iff scales reads).mp all
  · intro holds
    obtain ⟨⟨cs, accepted⟩, all⟩ := holds
    obtain ⟨across, down, scales, reads⟩ := (s.convert_ok_iff samples cs).mp accepted
    obtain ⟨_, _, isAcross, isDown⟩ := (s.scales_ok_iff samples across down).mp scales
    exact ⟨cs, accepted, (constraints_hold_iff scales reads).mpr (all across down isAcross isDown)⟩

theorem Sketch.passes_iff_columns {s : Sketch α} {samples : Nat} {across down : Scale α}
    (scales : s.scales ⟨samples⟩ = .ok (across, down))
    (readable : ∀ i < s.ruler.marks.length, Readable (s.column i)) (f : α → Outcome α)
    (start : σ) :
    ((Subject.steady f).check samples s start).halt? = none ↔
      ∀ i < s.ruler.marks.length,
        ColumnHolds f (across.samples samples i) down (s.column i) := by
  obtain ⟨_, _, isAcross, isDown⟩ := (s.scales_ok_iff samples across down).mp scales
  have accepted := accepted_of_readable scales readable
  rw [steady_check_passes_iff]
  constructor
  · intro passes
    exact passes.2 across down isAcross isDown
  · intro holds
    refine ⟨accepted, fun across' down' isAcross' isDown' => ?_⟩
    cases isAcross.symm.trans isAcross'
    cases isDown.symm.trans isDown'
    exact holds

/-- On doubles, an output that is no number meets no comparison of any column. -/
theorem conformity_iff_columns_hold (f : Float → Outcome Float) (samples : Nat)
    (s : Sketch Float) (start : σ) :
    (((Subject.steady f).check samples s start).halt? = none ↔
      (∃ cs, (s.convert ⟨samples⟩).result = .ok cs) ∧
        ∀ across down, s.across = .ok across → s.down = .ok down →
          ∀ i < s.ruler.marks.length,
            ColumnHolds f (across.samples samples i) down (s.column i)) ∧
      ∀ y a : Float, y.isNaN = true →
        (y == a) = false ∧ ¬ a ≤ y ∧ ¬ y ≤ a ∧ ¬ a < y ∧ ¬ y < a :=
  ⟨steady_check_passes_iff f samples s start, fun _ a nan => nan_unordered nan a⟩

end CurveSketch
