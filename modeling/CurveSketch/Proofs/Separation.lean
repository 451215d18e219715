import CurveSketch.Proofs.Weakening

/- The two axes keep apart. The rules come from the rows and the samples from the ruler; neither
   looks at what the other one reads, and how many samples are taken decides nothing about the
   rules or the faults. -/
namespace CurveSketch
variable {α : Type} [Scalar α]

theorem rules_of_reads {across across' down : Scale α} {count count' i i' : ℕ}
    {columns : List Column} {cs cs' : List (Constraint α)}
    (reads : Reads across down count i columns cs)
    (reads' : Reads across' down count' i' columns cs') :
    cs.map (·.rule) = cs'.map (·.rule) := by
  induction reads generalizing i' cs' with
  | nil i =>
    cases reads'
    rfl
  | blank empty tail ih =>
    cases reads' with
    | blank _ tail' => exact ih tail'
    | shown shows _ => exact absurd empty (by simp [shows_not_blank shows])
  | shown shows tail ih =>
    cases reads' with
    | blank empty _ => exact absurd empty (by simp [shows_not_blank shows])
    | shown shows' tail' =>
      rw [List.map_cons, List.map_cons, ih tail', shows_unique shows shows']

namespace Sketch

theorem rules_of_rows {p q : Sketch α} {n m : ℕ} {cs ds : List (Constraint α)}
    (accepted : (p.convert ⟨n⟩).result = .ok cs) (accepted' : (q.convert ⟨m⟩).result = .ok ds)
    (sameRows : p.rows = q.rows) : cs.map (·.rule) = ds.map (·.rule) := by
  obtain ⟨across, down, scales, reads⟩ := (p.convert_ok_iff n cs).mp accepted
  obtain ⟨across', down', scales', reads'⟩ := (q.convert_ok_iff m ds).mp accepted'
  obtain ⟨_, _, _, isDown⟩ := (p.scales_ok_iff n across down).mp scales
  obtain ⟨_, _, _, isDown'⟩ := (q.scales_ok_iff m across' down').mp scales'
  rw [Sketch.down, sameRows] at isDown
  cases isDown.symm.trans isDown'
  rw [Sketch.columns, sameRows] at reads
  exact rules_of_reads reads reads'

theorem samples_of_ruler {p q : Sketch α} {n : ℕ} {cs ds : List (Constraint α)}
    (accepted : (p.convert ⟨n⟩).result = .ok cs) (accepted' : (q.convert ⟨n⟩).result = .ok ds)
    (sameRuler : p.ruler = q.ruler)
    (sameBlanks : ∀ i < p.ruler.marks.length, (p.column i).isBlank = (q.column i).isBlank) :
    cs.map (·.samples) = ds.map (·.samples) := by
  obtain ⟨across, down, scales, _⟩ := (p.convert_ok_iff n cs).mp accepted
  obtain ⟨_, _, isAcross, _⟩ := (p.scales_ok_iff n across down).mp scales
  have isAcross' : q.across = .ok across := by rwa [Sketch.across, ← sameRuler]
  have shown : p.shownColumns = q.shownColumns := by
    rw [shownColumns, shownColumns, ← sameRuler]
    refine List.filter_congr fun i inside => ?_
    rw [sameBlanks i (List.mem_range.mp inside)]
  rw [samples_of_accepted accepted isAcross, samples_of_accepted accepted' isAcross', shown]

theorem same_outcome (p : Sketch α) {n m : ℕ} (some : 1 ≤ n) (some' : 1 ≤ m) :
    ((∃ cs, (p.convert ⟨n⟩).result = .ok cs) ∧ ∃ ds, (p.convert ⟨m⟩).result = .ok ds) ∨
      ∃ fault, (p.convert ⟨n⟩).result = .error fault ∧ (p.convert ⟨m⟩).result = .error fault := by
  have scales : p.scales ⟨n⟩ = p.scales ⟨m⟩ := by
    simp [Sketch.scales, Options.validate, Nat.one_le_iff_ne_zero.mp some,
      Nat.one_le_iff_ne_zero.mp some']
  rw [convert_result, convert_result, scales]
  cases p.scales ⟨m⟩ with
  | error fault => exact Or.inr ⟨fault, rfl, rfl⟩
  | ok pair =>
    obtain ⟨across, down⟩ := pair
    have decided (count : ℕ) : Decides
        (Conversion.ofColumns Reading.standard across down count 0 p.columns).result
        [readableColumns p.columns] := ofColumns_decides 0 p.columns
    cases first : (Conversion.ofColumns Reading.standard across down n 0 p.columns).result with
    | ok cs =>
      have met := (decided n).accepts.mp ⟨cs, first⟩
      exact Or.inl ⟨⟨cs, first⟩, (decided m).accepts.mpr met⟩
    | error fault =>
      have unmet := ((decided n).refuses fault).mp first
      exact Or.inr ⟨fault, first, ((decided m).refuses fault).mpr unmet⟩

end Sketch

/-- Two accepted sketches with the same rows have the same rules, whatever their rulers and the
    number of samples; with the same ruler and the same columns left blank they have the same
    samples, whatever else their rows show. A sketch fares alike with any number of samples. -/
theorem axes_keep_apart (p q : Sketch α) (n m : ℕ) :
    (∀ cs ds, (p.convert ⟨n⟩).result = .ok cs → (q.convert ⟨m⟩).result = .ok ds →
      (p.rows = q.rows → cs.map (·.rule) = ds.map (·.rule)) ∧
      (p.ruler = q.ruler →
        (∀ i < p.ruler.marks.length, (p.column i).isBlank = (q.column i).isBlank) → n = m →
          cs.map (·.samples) = ds.map (·.samples))) ∧
    (1 ≤ n → 1 ≤ m →
      ((∃ cs, (p.convert ⟨n⟩).result = .ok cs) ∧ ∃ ds, (p.convert ⟨m⟩).result = .ok ds) ∨
        ∃ fault, (p.convert ⟨n⟩).result = .error fault ∧
          (p.convert ⟨m⟩).result = .error fault) := by
  refine ⟨fun cs ds accepted accepted' => ⟨?_, ?_⟩, fun some some' => ?_⟩
  · intro sameRows
    exact Sketch.rules_of_rows accepted accepted' sameRows
  · intro sameRuler sameBlanks sameCount
    subst sameCount
    exact Sketch.samples_of_ruler accepted accepted' sameRuler sameBlanks
  · exact p.same_outcome some some'

def hill : Sketch Float :=
  ⟨[⟨some 2, " I X".toList⟩, ⟨none, " I  ".toList⟩, ⟨some 0, "XI  ".toList⟩],
    ⟨"|  |".toList, [0, 3]⟩⟩

def stretchedHill : Sketch Float := ⟨hill.rows, ⟨"|| |".toList, [10, 11, 21]⟩⟩

def flatHill : Sketch Float :=
  ⟨[⟨some 1, "ii X".toList⟩, ⟨some (-1), "ii  ".toList⟩], hill.ruler⟩

theorem hills_keep_apart :
    ∃ cs ds es, (hill.convert ⟨2⟩).result = .ok cs ∧ (stretchedHill.convert ⟨4⟩).result = .ok ds ∧
      (flatHill.convert ⟨2⟩).result = .ok es ∧ hill.rows = stretchedHill.rows ∧
      hill.ruler = flatHill.ruler ∧
      (∀ i < hill.ruler.marks.length, (hill.column i).isBlank = (flatHill.column i).isBlank) ∧
      cs.map (·.rule) = ds.map (·.rule) ∧ cs.map (·.samples) ≠ ds.map (·.samples) ∧
      cs.map (·.samples) = es.map (·.samples) ∧ cs.map (·.rule) ≠ es.map (·.rule) ∧
      ∃ fs, (hill.convert ⟨5⟩).result = .ok fs := by
  have converts : (hill.convert ⟨2⟩).result = .ok [⟨[0.25], .equals 0⟩,
      ⟨[0.75, 1.25], .spanning (-0.5) 2.5 0.5 1.5⟩, ⟨[2.75], .equals 2⟩] := by decide +kernel
  have stretched : (stretchedHill.convert ⟨4⟩).result = .ok [⟨[10.125, 10.375], .equals 0⟩,
      ⟨[10.375, 11.625, 12.875], .spanning (-0.5) 2.5 0.5 1.5⟩,
      ⟨[19.125, 20.375], .equals 2⟩] := by decide +kernel
  have flat : (flatHill.convert ⟨2⟩).result = .ok [⟨[0.25], .within (-2) 2⟩,
      ⟨[0.75, 1.25], .within (-2) 2⟩, ⟨[2.75], .equals 1⟩] := by decide +kernel
  have blanks : ∀ i < hill.ruler.marks.length,
      (hill.column i).isBlank = (flatHill.column i).isBlank := by decide
  obtain ⟨rules, _⟩ := (axes_keep_apart hill stretchedHill 2 4).1 _ _ converts stretched
  obtain ⟨_, samples⟩ := (axes_keep_apart hill flatHill 2 2).1 _ _ converts flat
  have finer : ∃ fs, (hill.convert ⟨5⟩).result = .ok fs := by
    rcases (axes_keep_apart hill hill 2 5).2 (by decide) (by decide) with
      ⟨_, accepted⟩ | ⟨fault, refused, _⟩
    · exact accepted
    · rw [converts] at refused
      cases refused
  exact ⟨_, _, _, converts, stretched, flat, rfl, rfl, blanks, rules rfl, by decide +kernel,
    samples rfl blanks rfl, by decide +kernel, finer⟩

end CurveSketch
