import CurveSketch.Proofs.Doubles
import CurveSketch.Proofs.Trials

/- Where a trial halts, and why: at the first sample whose call or output is at fault, or after
   the last sample of the first line that is not filled. Nothing is called after that. -/
namespace CurveSketch
variable {σ α : Type}

def Missing.Above : Missing → Prop
  | .above | .both => True
  | .below => False

def Missing.Below : Missing → Prop
  | .below | .both => True
  | .above => False

theorem Missing.of_iff (above below : Bool) (m : Missing) :
    Missing.of? above below = some m ↔ (m.Above ↔ above = false) ∧ (m.Below ↔ below = false) := by
  cases above <;> cases below <;> cases m <;> simp [Missing.of?, Missing.Above, Missing.Below]

def Rule.range? : Rule α → Option (α × α)
  | .equals _ => none
  | .within low high => some (low, high)
  | .spanning low high _ _ => some (low, high)

/-- One call ends the trial: the function gives no output, or an output breaks the rule. -/
inductive StopsAt [Scalar α] (f : Probe σ α) (rule : Rule α) (x : α) (s : σ) : Halt α → Prop where
  | failed {violation : Violation α} {next : σ} (call : f x s = (.failure violation, next)) :
      StopsAt f rule x s (.violated violation)
  | escaped {message? : Option String} {next : σ} (call : f x s = (.escape message?, next)) :
      StopsAt f rule x s (.escaped message?)
  | unequal {y expected : α} {next : σ} (call : f x s = (.value y, next))
      (exact : rule = .equals expected) (differs : (y == expected) = false) :
      StopsAt f rule x s (.violated (.unequal x y expected))
  | outside {y low high : α} {next : σ} (call : f x s = (.value y, next))
      (range : rule.range? = some (low, high)) (out : ¬ (low ≤ y ∧ y ≤ high)) :
      StopsAt f rule x s (.violated (.outside x y low high))

/-- A constraint ends the trial after these calls: at one of its samples, everything before it
    being in order, or as a whole, when no sample is at fault and a side of the inner band has no
    output. -/
inductive HaltsAt [Scalar α] (f : Probe σ α) (c : Constraint α) (s : σ) :
    List α → Halt α → Prop where
  | sample {before after ys : List α} {x : α} {mid : σ} {halt : Halt α}
      (place : c.samples = before ++ x :: after) (answers : Answers f before s ys mid)
      (admits : ∀ y ∈ ys, c.rule.Admits y) (stops : StopsAt f c.rule x mid halt) :
      HaltsAt f c s (before ++ [x]) halt
  | whole {low high innerLow innerHigh : α} {ys : List α} {last : σ} {missing : Missing}
      (line : c.rule = .spanning low high innerLow innerHigh)
      (answers : Answers f c.samples s ys last) (admits : ∀ y ∈ ys, c.rule.Admits y)
      (above : missing.Above ↔ ∀ y ∈ ys, ¬ innerHigh < y)
      (below : missing.Below ↔ ∀ y ∈ ys, ¬ y < innerLow) :
      HaltsAt f c s c.samples (.violated (.unspanned (c.samples.headD undefined)
        (c.samples.getLastD undefined) low high missing))

/-- Every constraint is met by what the function answers at its samples, one after the other. -/
inductive HoldInTurn [Scalar α] (f : Probe σ α) : List (Constraint α) → σ → σ → Prop where
  | nil (s : σ) : HoldInTurn f [] s s
  | cons {c : Constraint α} {cs : List (Constraint α)} {ys : List α} {s mid last : σ}
      (answers : Answers f c.samples s ys mid) (met : c.rule.Met ys)
      (rest : HoldInTurn f cs mid last) : HoldInTurn f (c :: cs) s last

/-- The same function, keeping a list of the arguments it is called with. -/
def Probe.recording (f : Probe σ α) : Probe (σ × List α) α := fun x s =>
  ((f x s.1).1, (f x s.1).2, s.2 ++ [x])

variable [Scalar α]

namespace Rule

theorem objection_some_iff (rule : Rule α) (x y : α) (violation : Violation α) :
    rule.objection? x y = some violation ↔
      (∃ expected, rule = .equals expected ∧ (y == expected) = false ∧
        violation = .unequal x y expected) ∨
      ∃ low high, rule.range? = some (low, high) ∧ ¬ (low ≤ y ∧ y ≤ high) ∧
        violation = .outside x y low high := by
  cases rule <;> simp [objection?, range?, eq_comm (b := violation)]

theorem shortfall_some_iff (rule : Rule α) (xs ys : List α) (violation : Violation α) :
    rule.shortfall? xs ys = some violation ↔
      ∃ low high innerLow innerHigh missing, rule = .spanning low high innerLow innerHigh ∧
        (missing.Above ↔ ∀ y ∈ ys, ¬ innerHigh < y) ∧
        (missing.Below ↔ ∀ y ∈ ys, ¬ y < innerLow) ∧
        violation = .unspanned (xs.headD undefined) (xs.getLastD undefined) low high missing := by
  cases rule with
  | equals y => simp [shortfall?]
  | within low high => simp [shortfall?]
  | spanning low high innerLow innerHigh =>
    simp only [shortfall?, Option.map_eq_some_iff, Missing.of_iff, List.any_eq_false,
      decide_eq_true_eq, spanning.injEq]
    constructor
    · intro short
      obtain ⟨missing, ⟨above, below⟩, rfl⟩ := short
      exact ⟨low, high, innerLow, innerHigh, missing, ⟨rfl, rfl, rfl, rfl⟩, above, below, rfl⟩
    · intro unfilled
      obtain ⟨_, _, _, _, missing, ⟨rfl, rfl, rfl, rfl⟩, above, below, rfl⟩ := unfilled
      exact ⟨missing, ⟨above, below⟩, rfl⟩

end Rule

namespace Trial
variable {f : Probe σ α} {rule : Rule α} {c : Constraint α} {cs : List (Constraint α)}
  {s mid : σ} {halt : Halt α}

theorem ofCall_calls (rule : Rule α) (f : Probe σ α) (x : α) (s : σ) :
    (ofCall rule f x s).calls = [x] := by
  unfold ofCall
  split <;> rfl

theorem ofCall_halts_iff (rule : Rule α) (f : Probe σ α) (x : α) (s : σ) (halt : Halt α) :
    (ofCall rule f x s).halt? = some halt ↔ StopsAt f rule x s halt := by
  unfold ofCall
  constructor
  · intro halts
    split at halts
    · rename_i y next call
      obtain ⟨violation, objects, rfl⟩ := Option.map_eq_some_iff.mp halts
      rcases (rule.objection_some_iff x y violation).mp objects with
        ⟨expected, exact, differs, rfl⟩ | ⟨low, high, range, out, rfl⟩
      · exact .unequal call exact differs
      · exact .outside call range out
    · rename_i violation next call
      cases halts
      exact .failed call
    · rename_i message? next call
      cases halts
      exact .escaped call
  · intro stops
    cases stops with
    | failed call => rw [call]
    | escaped call => rw [call]
    | @unequal y expected next call exact differs =>
      have objects := (rule.objection_some_iff x y (.unequal x y expected)).mpr
        (Or.inl ⟨expected, exact, differs, rfl⟩)
      simp [call, objects]
    | @outside y low high next call range out =>
      have objects := (rule.objection_some_iff x y (.outside x y low high)).mpr
        (Or.inr ⟨low, high, range, out, rfl⟩)
      simp [call, objects]

theorem ofSamples_skip {before ys : List α} (answers : Answers f before s ys mid)
    (admits : ∀ y ∈ ys, rule.Admits y) (rest : List α) :
    (ofSamples rule f (before ++ rest) s).halt? = (ofSamples rule f rest mid).halt? ∧
      (ofSamples rule f (before ++ rest) s).calls =
        before ++ (ofSamples rule f rest mid).calls := by
  induction answers with
  | nil s => exact ⟨rfl, rfl⟩
  | cons call later ih =>
    obtain ⟨halts, calls⟩ := ih fun y member => admits y (by simp [member])
    rw [List.cons_append, ofSamples, ofCall_of_value call (admits _ (by simp)),
      andThen_of_pass _ rfl, halts, calls]
    exact ⟨rfl, rfl⟩

theorem ofSamples_stops {xs : List α} (halts : (ofSamples rule f xs s).halt? = some halt) :
    ∃ before x after ys mid, xs = before ++ x :: after ∧ Answers f before s ys mid ∧
      (∀ y ∈ ys, rule.Admits y) ∧ StopsAt f rule x mid halt := by
  induction xs generalizing s with
  | nil => simp [ofSamples, idle] at halts
  | cons x xs ih =>
    rw [ofSamples] at halts
    cases first : (ofCall rule f x s).halt? with
    | some stopped =>
      simp only [andThen, first, Option.some.injEq] at halts
      subst halts
      exact ⟨[], x, xs, [], s, rfl, .nil s, by simp, (ofCall_halts_iff rule f x s _).mp first⟩
    | none =>
      obtain ⟨y, next, call, admits⟩ := (ofCall_passes_iff rule f x s).mp first
      rw [andThen_of_pass _ first, ofCall_of_value call admits] at halts
      obtain ⟨before, x', after, ys, mid, rfl, answers, all, stops⟩ := ih halts
      exact ⟨x :: before, x', after, y :: ys, mid, rfl, .cons call answers,
        List.forall_mem_cons.mpr ⟨admits, all⟩, stops⟩

theorem ofSamples_of_stops {before after ys : List α} {x : α}
    (answers : Answers f before s ys mid) (admits : ∀ y ∈ ys, rule.Admits y)
    (stops : StopsAt f rule x mid halt) :
    (ofSamples rule f (before ++ x :: after) s).halt? = some halt ∧
      (ofSamples rule f (before ++ x :: after) s).calls = before ++ [x] := by
  have first := (ofCall_halts_iff rule f x mid halt).mpr stops
  have here : ofSamples rule f (x :: after) mid = ofCall rule f x mid := by
    simp [ofSamples, andThen, first]
  obtain ⟨halts, calls⟩ := ofSamples_skip answers admits (x :: after)
  rw [halts, calls, here, ofCall_calls]
  exact ⟨first, rfl⟩

theorem judged_calls (c : Constraint α) (t : Trial σ α) : (judged c t).calls = t.calls := by
  unfold judged
  split <;> rfl

theorem judged_of_halt {t : Trial σ α} (c : Constraint α) (halts : t.halt? = some halt) :
    judged c t = t := by
  simp [judged, halts]

theorem ofConstraint_halts_iff (f : Probe σ α) (c : Constraint α) (s : σ) (halt : Halt α)
    (calls : List α) :
    (ofConstraint f c s).halt? = some halt ∧ (ofConstraint f c s).calls = calls ↔
      HaltsAt f c s calls halt := by
  unfold ofConstraint
  constructor
  · intro halted
    obtain ⟨halts, rfl⟩ := halted
    cases ran : (ofSamples c.rule f c.samples s).halt? with
    | some stopped =>
      rw [judged_of_halt c ran] at halts ⊢
      obtain ⟨before, x, after, ys, mid, place, answers, admits, stops⟩ := ofSamples_stops halts
      rw [place, (ofSamples_of_stops answers admits stops).2]
      exact .sample place answers admits stops
    | none =>
      obtain ⟨ys, last, answers, admits⟩ := answers_of_ofSamples ran
      rw [judged_calls, ofSamples_of_answers answers admits]
      rw [ofSamples_of_answers answers admits] at halts
      obtain ⟨violation, short, rfl⟩ := Option.map_eq_some_iff.mp halts
      obtain ⟨low, high, innerLow, innerHigh, missing, line, above, below, rfl⟩ :=
        (c.rule.shortfall_some_iff _ _ _).mp short
      exact .whole line answers admits above below
  · intro stops
    cases stops with
    | sample place answers admits stops =>
      obtain ⟨halts, calls⟩ := ofSamples_of_stops answers admits stops
      rw [place, judged_of_halt c halts]
      exact ⟨halts, calls⟩
    | whole line answers admits above below =>
      have short := (c.rule.shortfall_some_iff c.samples _ _).mpr
        ⟨_, _, _, _, _, line, above, below, rfl⟩
      rw [judged_calls, ofSamples_of_answers answers admits]
      exact ⟨Option.map_eq_some_iff.mpr ⟨_, short, rfl⟩, rfl⟩

theorem ofConstraints_passes_iff (f : Probe σ α) (cs : List (Constraint α)) (s : σ) :
    (ofConstraints f cs s).halt? = none ↔ ∃ last, HoldInTurn f cs s last := by
  induction cs generalizing s with
  | nil =>
    simp only [ofConstraints, idle, true_iff]
    exact ⟨s, .nil s⟩
  | cons c cs ih =>
    rw [ofConstraints, andThen_passes_iff, ofConstraint_passes_iff]
    constructor
    · intro passes
      obtain ⟨⟨ys, mid, answers, met⟩, later⟩ := passes
      rw [ofConstraint_of_answers answers met] at later
      obtain ⟨last, rest⟩ := (ih mid).mp later
      exact ⟨last, .cons answers met rest⟩
    · intro inTurn
      obtain ⟨last, holds⟩ := inTurn
      cases holds with
      | cons answers met rest =>
        refine ⟨⟨_, _, answers, met⟩, ?_⟩
        rw [ofConstraint_of_answers answers met]
        exact (ih _).mpr ⟨last, rest⟩

theorem ofConstraints_skip {before : List (Constraint α)} (holds : HoldInTurn f before s mid)
    (rest : List (Constraint α)) :
    (ofConstraints f (before ++ rest) s).halt? = (ofConstraints f rest mid).halt? ∧
      (ofConstraints f (before ++ rest) s).calls =
        before.flatMap (·.samples) ++ (ofConstraints f rest mid).calls := by
  induction holds with
  | nil s => exact ⟨rfl, rfl⟩
  | cons answers met later ih =>
    obtain ⟨halts, calls⟩ := ih
    rw [List.cons_append, ofConstraints, ofConstraint_of_answers answers met,
      andThen_of_pass _ rfl, halts, calls, List.flatMap_cons, List.append_assoc]
    exact ⟨rfl, rfl⟩

theorem ofConstraints_stops (halts : (ofConstraints f cs s).halt? = some halt) :
    ∃ before c after mid calls, cs = before ++ c :: after ∧ HoldInTurn f before s mid ∧
      HaltsAt f c mid calls halt := by
  induction cs generalizing s with
  | nil => simp [ofConstraints, idle] at halts
  | cons c cs ih =>
    rw [ofConstraints] at halts
    cases first : (ofConstraint f c s).halt? with
    | some stopped =>
      simp only [andThen, first, Option.some.injEq] at halts
      subst halts
      exact ⟨[], c, cs, s, _, rfl, .nil s, (ofConstraint_halts_iff f c s _ _).mp ⟨first, rfl⟩⟩
    | none =>
      obtain ⟨ys, next, answers, met⟩ := (ofConstraint_passes_iff f c s).mp first
      rw [andThen_of_pass _ first, ofConstraint_of_answers answers met] at halts
      obtain ⟨before, c', after, mid, calls, rfl, holds, stops⟩ := ih halts
      exact ⟨c :: before, c', after, mid, calls, rfl, .cons answers met holds, stops⟩

theorem ofConstraints_of_stops {before after : List (Constraint α)} {calls : List α}
    (holds : HoldInTurn f before s mid) (stops : HaltsAt f c mid calls halt) :
    (ofConstraints f (before ++ c :: after) s).halt? = some halt ∧
      (ofConstraints f (before ++ c :: after) s).calls =
        before.flatMap (·.samples) ++ calls := by
  obtain ⟨first, called⟩ := (ofConstraint_halts_iff f c mid halt calls).mpr stops
  have here : ofConstraints f (c :: after) mid = ofConstraint f c mid := by
    simp [ofConstraints, andThen, first]
  obtain ⟨halts, all⟩ := ofConstraints_skip holds (c :: after)
  rw [halts, all, here, called]
  exact ⟨first, rfl⟩

def seenAfter (seen : List α) (t : Trial σ α) : Trial (σ × List α) α :=
  ⟨t.calls, t.outputs, t.notes, t.halt?, (t.state, seen ++ t.calls)⟩

omit [Scalar α] in
theorem andThen_seen (seen : List α) (t : Trial σ α) {next : σ → Trial σ α}
    {next' : σ × List α → Trial (σ × List α) α}
    (same : ∀ s seen, next' (s, seen) = (next s).seenAfter seen) :
    (t.seenAfter seen).andThen next' = (t.andThen next).seenAfter seen := by
  cases halts : t.halt? with
  | some halt => simp [andThen, seenAfter, halts]
  | none => simp [andThen, seenAfter, halts, same]

theorem ofCall_recording (rule : Rule α) (f : Probe σ α) (x : α) (s : σ) (seen : List α) :
    ofCall rule f.recording x (s, seen) = (ofCall rule f x s).seenAfter seen := by
  unfold ofCall Probe.recording
  cases call : f x s with
  | mk answer next => cases answer <;> rfl

theorem ofSamples_recording (rule : Rule α) (f : Probe σ α) (xs : List α) (s : σ)
    (seen : List α) :
    ofSamples rule f.recording xs (s, seen) = (ofSamples rule f xs s).seenAfter seen := by
  induction xs generalizing s seen with
  | nil => simp [ofSamples, idle, seenAfter]
  | cons x xs ih => rw [ofSamples, ofSamples, ofCall_recording, andThen_seen seen _ ih]

theorem ofConstraint_recording (f : Probe σ α) (c : Constraint α) (s : σ) (seen : List α) :
    ofConstraint f.recording c (s, seen) = (ofConstraint f c s).seenAfter seen := by
  rw [ofConstraint, ofConstraint, ofSamples_recording]
  unfold judged
  cases halts : (ofSamples c.rule f c.samples s).halt? <;> simp [seenAfter, halts]

theorem ofConstraints_recording (f : Probe σ α) (cs : List (Constraint α)) (s : σ)
    (seen : List α) :
    ofConstraints f.recording cs (s, seen) = (ofConstraints f cs s).seenAfter seen := by
  induction cs generalizing s seen with
  | nil => simp [ofConstraints, idle, seenAfter]
  | cons c cs ih =>
    rw [ofConstraints, ofConstraints, ofConstraint_recording, andThen_seen seen _ ih]

theorem violated_of_intercepted (intercepted : ∀ x s message?, (f x s).1 ≠ .escape message?)
    (halts : (ofConstraints f cs s).halt? = some halt) :
    ∃ violation, halt = .violated violation := by
  obtain ⟨_, c, _, _, _, _, _, stops⟩ := ofConstraints_stops halts
  cases stops with
  | whole => exact ⟨_, rfl⟩
  | sample _ _ _ stops =>
    cases stops with
    | failed => exact ⟨_, rfl⟩
    | escaped call => exact absurd (congrArg Prod.fst call) (intercepted _ _ _)
    | unequal => exact ⟨_, rfl⟩
    | outside => exact ⟨_, rfl⟩

end Trial

/-- A trial of constraints over doubles passes when they hold in turn. Otherwise it halts at the
    leftmost that does not, for the first reason there, and the function has been called at the
    samples up to that point and no others. -/
theorem trial_decided (f : Probe σ Float) (cs : List (Constraint Float)) (s : σ) :
    ((Trial.ofConstraints f cs s).halt? = none ↔ ∃ last, HoldInTurn f cs s last) ∧
      ((Trial.ofConstraints f cs s).halt? = none →
        (Trial.ofConstraints f cs s).calls = cs.flatMap (·.samples)) ∧
      (∀ halt calls, ((Trial.ofConstraints f cs s).halt? = some halt ∧
          (Trial.ofConstraints f cs s).calls = calls) ↔
        ∃ before c after mid part, cs = before ++ c :: after ∧ HoldInTurn f before s mid ∧
          HaltsAt f c mid part halt ∧ calls = before.flatMap (·.samples) ++ part) ∧
      ((∀ x s message?, (f x s).1 ≠ .escape message?) → ∀ halt,
        (Trial.ofConstraints f cs s).halt? = some halt →
          ∃ violation, halt = .violated violation) ∧
      (∀ seen, (Trial.ofConstraints f.recording cs (s, seen)).state.2 =
        seen ++ (Trial.ofConstraints f cs s).calls) ∧
      (∀ y a b : Float, y.isNaN = true → (y == a) = false ∧ ¬ (a ≤ y ∧ y ≤ b)) ∧
      (undefined : Float).isNaN = true := by
  refine ⟨Trial.ofConstraints_passes_iff f cs s, Trial.calls_of_pass, ?_, ?_, ?_, ?_, ?_⟩
  · intro halt calls
    constructor
    · intro halted
      obtain ⟨halts, rfl⟩ := halted
      obtain ⟨before, c, after, mid, part, rfl, holds, stops⟩ := Trial.ofConstraints_stops halts
      exact ⟨before, c, after, mid, part, rfl, holds, stops,
        (Trial.ofConstraints_of_stops holds stops).2⟩
    · intro leftmost
      obtain ⟨before, c, after, mid, part, rfl, holds, stops, rfl⟩ := leftmost
      exact Trial.ofConstraints_of_stops holds stops
  · intro intercepted halt halts
    exact Trial.violated_of_intercepted intercepted halts
  · intro seen
    rw [Trial.ofConstraints_recording]
    rfl
  · intro y a b nan
    obtain ⟨differs, low, _⟩ := nan_unordered nan a
    exact ⟨differs, fun inside => low inside.1⟩
  · decide +kernel

def counting : Probe Nat Float := fun _ n => (.value (Float.ofNat n), n + 1)

def countedConstraints : List (Constraint Float) :=
  [⟨[5], .equals 0⟩, ⟨[], .within 1 2⟩, ⟨[6, 7], .spanning 0 9 5 8⟩, ⟨[8], .equals 0⟩]

theorem counting_stops :
    (∀ x n message?, (counting x n).1 ≠ .escape message?) ∧
      (∃ violation, (Trial.ofConstraints counting countedConstraints 0).halt? =
        some (.violated violation)) ∧
      (∃ before c after mid part, countedConstraints = before ++ c :: after ∧
        HoldInTurn counting before 0 mid ∧
        HaltsAt counting c mid part (.violated (.unspanned 6 7 0 9 .above)) ∧
        [5, 6, 7] = before.flatMap (·.samples) ++ part) ∧
      (Trial.ofConstraints counting.recording countedConstraints (0, [])).state.2 = [5, 6, 7] := by
  obtain ⟨_, _, stops, violated, seen, _⟩ := trial_decided counting countedConstraints 0
  have intercepted : ∀ x n message?, (counting x n).1 ≠ .escape message? := by
    intro x n message?
    simp [counting]
  have halts : (Trial.ofConstraints counting countedConstraints 0).halt? =
      some (.violated (.unspanned 6 7 0 9 .above)) := by decide +kernel
  have calls : (Trial.ofConstraints counting countedConstraints 0).calls = [5, 6, 7] := by
    decide +kernel
  obtain ⟨violation, same⟩ := violated intercepted _ halts
  refine ⟨intercepted, ⟨violation, by rw [halts, same]⟩, (stops _ _).mp ⟨halts, calls⟩, ?_⟩
  rw [seen [], calls]
  rfl

end CurveSketch
