import CurveSketch.Proofs.Halting
import CurveSketch.Proofs.Verdict

/- The forms of a check. Catching the crashes of a function and taking its errors as reported are
   one and the same when the errors say what the crashes would; demanding conformity only changes
   how the outcome is told. A crash that is not caught ends the check where the trial gets to it,
   and a malformed sketch ends it before the first call. -/
namespace CurveSketch
variable {σ α : Type}

def Outcome.confessed : Outcome α → Outcome α
  | .crash message? => .error (crashCause message?)
  | outcome => outcome

/-- The function that returns as an error what `f` crashes with. -/
def Subject.confessing (f : Subject σ α) : Subject σ α := fun x s =>
  ((f x s).1.confessed, (f x s).2)

/-- One sample of one constraint, with everything that stands before it and after it. -/
structure Place (cs : List (Constraint α)) where
  earlier : List (Constraint α)
  column : Constraint α
  later : List (Constraint α)
  before : List α
  sample : α
  after : List α
  split : cs = earlier ++ column :: later
  inside : column.samples = before ++ sample :: after

namespace Place
variable {cs : List (Constraint α)}

def path (p : Place cs) : List α := p.earlier.flatMap (·.samples) ++ (p.before ++ [p.sample])

/-- The trial gets to the sample, in the given state: every earlier constraint holds, and every
    earlier sample of the same constraint is answered with an output that the rule admits. -/
def Reached [Scalar α] (p : Place cs) (f : Probe σ α) (start here : σ) : Prop :=
  ∃ mid ys, HoldInTurn f p.earlier start mid ∧ Answers f p.before mid ys here ∧
    ∀ y ∈ ys, p.column.rule.Admits y

theorem earlier_of_path {earlier earlier' later later' : List (Constraint α)}
    {column column' : Constraint α} {before before' after after' : List α} {x x' : α}
    (split : earlier ++ column :: later = earlier' ++ column' :: later')
    (inside : column.samples = before ++ x :: after)
    (inside' : column'.samples = before' ++ x' :: after')
    (same : earlier.flatMap (·.samples) ++ (before ++ [x]) =
      earlier'.flatMap (·.samples) ++ (before' ++ [x'])) : earlier = earlier' := by
  induction earlier generalizing earlier' with
  | nil =>
    cases earlier' with
    | nil => rfl
    | cons first earlier' =>
      obtain ⟨rfl, _⟩ := List.cons.inj split
      have lengths := congrArg List.length same
      simp only [List.flatMap_nil, List.flatMap_cons, List.length_append, List.length_cons,
        List.length_nil, inside] at lengths
      omega
  | cons first earlier ih =>
    cases earlier' with
    | nil =>
      obtain ⟨rfl, _⟩ := List.cons.inj split
      have lengths := congrArg List.length same
      simp only [List.flatMap_nil, List.flatMap_cons, List.length_append, List.length_cons,
        List.length_nil, inside'] at lengths
      omega
    | cons first' earlier' =>
      obtain ⟨rfl, rest⟩ := List.cons.inj split
      rw [List.flatMap_cons, List.flatMap_cons, List.append_assoc, List.append_assoc] at same
      rw [ih rest (List.append_cancel_left same)]

theorem eq_of_path {p q : Place cs} (same : p.path = q.path) : p = q := by
  obtain ⟨earlier, column, later, before, x, after, split, inside⟩ := p
  obtain ⟨earlier', column', later', before', x', after', split', inside'⟩ := q
  simp only [path] at same
  cases earlier_of_path (split.symm.trans split') inside inside' same
  obtain ⟨rfl, rfl⟩ := List.cons.inj (List.append_cancel_left (split.symm.trans split'))
  obtain ⟨rfl, last⟩ := List.append_inj' (List.append_cancel_left same) rfl
  cases last
  obtain ⟨_, rfl⟩ := List.cons.inj (List.append_cancel_left (inside.symm.trans inside'))
  rfl

end Place

namespace Subject
variable (f : Subject σ α)

theorem confessing_reporting : f.confessing.reporting = f.catching := by
  funext x s
  simp only [reporting, confessing, catching]
  cases (f x s).1 <;> rfl

theorem catching_intercepts (x : α) (s : σ) (message? : Option String) :
    (f.catching x s).1 ≠ .escape message? := by
  simp only [catching]
  cases (f x s).1 <;> simp [Outcome.caught]

theorem reporting_escapes_iff (x : α) (s : σ) (message? : Option String) :
    (f.reporting x s).1 = .escape message? ↔ (f x s).1 = .crash message? := by
  simp only [reporting]
  cases (f x s).1 <;> simp [Outcome.reported]

end Subject

namespace Trial
variable [Scalar α] {f : Probe σ α} {cs : List (Constraint α)} {start : σ}

theorem escaped_somewhere {message? : Option String}
    (escapes : (ofConstraints f cs start).halt? = some (.escaped message?)) :
    ∃ p : Place cs, (ofConstraints f cs start).calls = p.path ∧
      ∃ here, p.Reached f start here ∧ (f p.sample here).1 = .escape message? := by
  obtain ⟨earlier, column, later, mid, calls, split, holds, stops⟩ := ofConstraints_stops escapes
  have called : (ofConstraints f (earlier ++ column :: later) start).calls =
      earlier.flatMap (·.samples) ++ calls := (ofConstraints_of_stops holds stops).2
  rw [← split] at called
  cases stops with
  | @sample before after ys x here _ inside answers admits stops =>
    cases stops with
    | escaped call =>
      exact ⟨⟨earlier, column, later, before, x, after, split, inside⟩, called, here,
        ⟨mid, ys, holds, answers, admits⟩, congrArg Prod.fst call⟩

theorem escapes_of_reached {p : Place cs} {here : σ} {message? : Option String}
    (reached : p.Reached f start here) (escape : (f p.sample here).1 = .escape message?) :
    (ofConstraints f cs start).halt? = some (.escaped message?) ∧
      (ofConstraints f cs start).calls = p.path := by
  obtain ⟨mid, ys, holds, answers, admits⟩ := reached
  have call : f p.sample here = (.escape message?, (f p.sample here).2) := Prod.ext escape rfl
  have stops := HaltsAt.sample p.inside answers admits (.escaped call)
  have halted : (ofConstraints f (p.earlier ++ p.column :: p.later) start).halt? =
      some (.escaped message?) ∧
        (ofConstraints f (p.earlier ++ p.column :: p.later) start).calls = p.path :=
    ofConstraints_of_stops holds stops
  rwa [← p.split] at halted

theorem escapes_at_iff (p : Place cs) (message? : Option String) :
    (ofConstraints f cs start).halt? = some (.escaped message?) ∧
        (ofConstraints f cs start).calls = p.path ↔
      ∃ here, p.Reached f start here ∧ (f p.sample here).1 = .escape message? := by
  constructor
  · intro escapes
    obtain ⟨q, path, here, reached, escape⟩ := escaped_somewhere escapes.1
    cases Place.eq_of_path (path.symm.trans escapes.2)
    exact ⟨here, reached, escape⟩
  · intro gets
    obtain ⟨here, reached, escape⟩ := gets
    exact escapes_of_reached reached escape

end Trial

theorem trial_of_accepted [Scalar α] {s : Sketch α} {options : Options}
    {cs : List (Constraint α)} (f : Probe σ α) (start : σ)
    (accepted : (s.convert options).result = .ok cs) :
    (s.trial options f start).halt? = (Trial.ofConstraints f cs start).halt? ∧
      (s.trial options f start).calls = (Trial.ofConstraints f cs start).calls := by
  rw [trial_of_constraints f start accepted]
  exact ⟨rfl, rfl⟩

namespace Subject

theorem fallible_eq [Scalar α] (f : Subject σ α) (samples : Nat) (s : Sketch α) (start : σ) :
    f.checkFallible samples s start = s.trial ⟨samples⟩ f.reporting start := rfl

theorem check_halts [Scalar α] {f : Subject σ α} {samples : Nat} {s : Sketch α} {start : σ}
    {halt : Halt α} (halts : (f.check samples s start).halt? = some halt) :
    (∃ fault, halt = .malformed fault) ∨ ∃ violation, halt = .violated violation := by
  rw [f.check_eq] at halts
  cases result : (s.convert ⟨samples⟩).result with
  | error fault =>
    rw [trial_of_fault f.catching start result] at halts
    exact Or.inl ⟨fault, (Option.some.inj halts).symm⟩
  | ok cs =>
    rw [(trial_of_accepted f.catching start result).1] at halts
    exact Or.inr (Trial.violated_of_intercepted f.catching_intercepts halts)

theorem demand_halts_iff (f : Subject σ Float) (samples : Nat) (s : Sketch Float) (start : σ)
    (halt : Halt Float) :
    (f.demand samples s start).halt? = some halt ↔
      ∃ text, halt = .escaped (some text) ∧
        ((∃ fault, (f.check samples s start).halt? = some (.malformed fault) ∧
            fault.message = text) ∨
          ∃ violation, (f.check samples s start).halt? = some (.violated violation) ∧
            violation.message = text) := by
  simp only [demand, Trial.crashing, Option.map_eq_some_iff]
  constructor
  · intro crashes
    obtain ⟨found, halts, rfl⟩ := crashes
    rcases check_halts halts with ⟨fault, rfl⟩ | ⟨violation, rfl⟩
    · exact ⟨fault.message, rfl, Or.inl ⟨fault, halts, rfl⟩⟩
    · exact ⟨violation.message, rfl, Or.inr ⟨violation, halts, rfl⟩⟩
  · intro tells
    obtain ⟨text, rfl, ⟨fault, halts, rfl⟩ | ⟨violation, halts, rfl⟩⟩ := tells
    · exact ⟨_, halts, rfl⟩
    · exact ⟨_, halts, rfl⟩

theorem fallible_escapes_iff [Scalar α] {samples : Nat} {s : Sketch α} {cs : List (Constraint α)}
    (f : Subject σ α) (start : σ) (accepted : (s.convert ⟨samples⟩).result = .ok cs)
    (p : Place cs) (message? : Option String) :
    (f.checkFallible samples s start).halt? = some (.escaped message?) ∧
        (f.checkFallible samples s start).calls = p.path ↔
      ∃ here, p.Reached f.reporting start here ∧ (f p.sample here).1 = .crash message? := by
  obtain ⟨halts, calls⟩ := trial_of_accepted f.reporting start accepted
  rw [f.fallible_eq, halts, calls, Trial.escapes_at_iff]
  simp only [f.reporting_escapes_iff]

end Subject

/-- The forms of a check agree. The number of samples may come among options; errors that say
    what crashes would say are as good as the crashes; a demand makes the same calls and crashes
    with the text of what the check finds. A malformed sketch is reported by each of them before
    the first call. Where errors are taken as reported, a crash escapes exactly from a sample that
    the trial gets to, everything before it being in order, and it is the last call. -/
theorem forms_agree (f : Subject σ Float) (samples : Nat) (s : Sketch Float) (start : σ) :
    (∀ options : Options, options.samples = samples →
        f.checkWith options s start = f.check samples s start) ∧
      f.confessing.checkFallible samples s start = f.check samples s start ∧
      ((f.demand samples s start).calls = (f.check samples s start).calls ∧
        (f.demand samples s start).state = (f.check samples s start).state ∧
        ((f.demand samples s start).halt? = none ↔ (f.check samples s start).halt? = none) ∧
        ∀ halt, (f.demand samples s start).halt? = some halt ↔
          ∃ text, halt = .escaped (some text) ∧
            ((∃ fault, (f.check samples s start).halt? = some (.malformed fault) ∧
                fault.message = text) ∨
              ∃ violation, (f.check samples s start).halt? = some (.violated violation) ∧
                violation.message = text)) ∧
      (∀ fault, (s.convert ⟨samples⟩).result = .error fault →
        f.check samples s start =
            ⟨[], [], (s.convert ⟨samples⟩).notes, some (.malformed fault), start⟩ ∧
          f.checkFallible samples s start =
            ⟨[], [], (s.convert ⟨samples⟩).notes, some (.malformed fault), start⟩ ∧
          f.demand samples s start =
            ⟨[], [], (s.convert ⟨samples⟩).notes, some (.escaped (some fault.message)), start⟩) ∧
      ∀ cs, (s.convert ⟨samples⟩).result = .ok cs →
        (∀ (p : Place cs) message?,
          ((f.checkFallible samples s start).halt? = some (.escaped message?) ∧
              (f.checkFallible samples s start).calls = p.path) ↔
            ∃ here, p.Reached f.reporting start here ∧ (f p.sample here).1 = .crash message?) ∧
        ∀ message?, (f.checkFallible samples s start).halt? = some (.escaped message?) →
          ∃ p : Place cs, (f.checkFallible samples s start).calls = p.path := by
  refine ⟨?_, ?_, ⟨rfl, rfl, Option.map_eq_none_iff, f.demand_halts_iff samples s start⟩,
    ?_, ?_⟩
  · rintro ⟨_⟩ rfl
    rfl
  · rw [Subject.fallible_eq, f.confessing_reporting, f.check_eq]
  · intro fault refused
    have check : f.check samples s start =
        ⟨[], [], (s.convert ⟨samples⟩).notes, some (.malformed fault), start⟩ :=
      trial_of_fault f.catching start refused
    refine ⟨check, trial_of_fault f.reporting start refused, ?_⟩
    rw [Subject.demand, check]
    rfl
  · intro cs accepted
    refine ⟨f.fallible_escapes_iff start accepted, ?_⟩
    intro message? escapes
    obtain ⟨halts, calls⟩ := trial_of_accepted f.reporting start accepted
    rw [f.fallible_eq, halts] at escapes
    obtain ⟨p, path, _⟩ := Trial.escaped_somewhere escapes
    exact ⟨p, by rw [f.fallible_eq, calls, path]⟩

def shortOfBreath : Subject Nat Float := fun x calls =>
  (if x < 1 then .value x else .crash (some "out of breath"), calls + 1)

def twoSteps : Sketch Float :=
  ⟨[⟨some 1, " X".toList⟩, ⟨some 0, "X ".toList⟩], ⟨"||".toList, [0, 1]⟩⟩

def raggedSteps : Sketch Float :=
  ⟨[⟨some 1, " X".toList⟩, ⟨some 0, "X".toList⟩], twoSteps.ruler⟩

theorem two_steps_agree :
    shortOfBreath.checkWith ⟨1⟩ twoSteps 0 = shortOfBreath.check 1 twoSteps 0 ∧
      (shortOfBreath.check 1 twoSteps 0).halt? =
        some (.violated (.failed 1 "out of breath")) ∧
      (shortOfBreath.demand 1 twoSteps 0).halt? =
        some (.escaped (some "For x=1: the function throws an exception!")) ∧
      (∃ cs, (twoSteps.convert ⟨1⟩).result = .ok cs ∧ ∃ p : Place cs, p.path = [0, 1] ∧
        ∃ here, p.Reached shortOfBreath.reporting 0 here ∧
          (shortOfBreath p.sample here).1 = .crash (some "out of breath")) ∧
      shortOfBreath.demand 1 raggedSteps 0 = ⟨[], [], [], some (.escaped
        (some "Visualisation rows and the X axis markers string must have the same length!")),
        0⟩ := by
  obtain ⟨options, _, ⟨_, _, _, demands⟩, _, escapes⟩ := forms_agree shortOfBreath 1 twoSteps 0
  obtain ⟨_, _, _, refuses, _⟩ := forms_agree shortOfBreath 1 raggedSteps 0
  have violated : (shortOfBreath.check 1 twoSteps 0).halt? =
      some (.violated (.failed 1 "out of breath")) := by decide +kernel
  have text : (Violation.failed (1 : Float) "out of breath").message =
      "For x=1: the function throws an exception!" := by decide +kernel
  have accepted : (twoSteps.convert ⟨1⟩).result =
      .ok [⟨[0], .equals 0⟩, ⟨[1], .equals 1⟩] := by decide +kernel
  have escaped : (shortOfBreath.checkFallible 1 twoSteps 0).halt? =
      some (.escaped (some "out of breath")) := by decide +kernel
  have calls : (shortOfBreath.checkFallible 1 twoSteps 0).calls = [0, 1] := by decide +kernel
  have refused : (raggedSteps.convert ⟨1⟩).result = .error .unequalWidths := by decide +kernel
  obtain ⟨here, somewhere⟩ := escapes _ accepted
  obtain ⟨p, path⟩ := somewhere _ escaped
  exact ⟨options ⟨1⟩ rfl, violated,
    (demands _).mpr ⟨_, rfl, Or.inr ⟨_, violated, text⟩⟩,
    ⟨_, accepted, p, path.symm.trans calls, (here p _).mp ⟨escaped, path⟩⟩,
    (refuses _ refused).2.2⟩

end CurveSketch
