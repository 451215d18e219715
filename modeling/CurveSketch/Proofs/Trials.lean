import CurveSketch.Check

/- Trials that pass: which outputs a rule admits, and what a trial has done when nothing halted
   it. The function may depend on the calls before, so outputs are told by the run that gave
   them. -/
namespace CurveSketch
variable {σ α : Type}

/-- From the first state the function answers the arguments in order with these outputs, and it
    leaves the last state. -/
inductive Answers (f : Probe σ α) : List α → σ → List α → σ → Prop where
  | nil (s : σ) : Answers f [] s [] s
  | cons {x y : α} {xs ys : List α} {s next last : σ} (call : f x s = (.value y, next))
      (rest : Answers f xs next ys last) : Answers f (x :: xs) s (y :: ys) last

namespace Rule
variable [Scalar α]

def Admits : Rule α → α → Prop
  | .equals y, output => (output == y) = true
  | .within low high, output => low ≤ output ∧ output ≤ high
  | .spanning low high _ _, output => low ≤ output ∧ output ≤ high

def Spanned : Rule α → List α → Prop
  | .spanning _ _ innerLow innerHigh, outputs =>
    (∃ y ∈ outputs, innerHigh < y) ∧ ∃ y ∈ outputs, y < innerLow
  | _, _ => True

def Met (rule : Rule α) (outputs : List α) : Prop :=
  (∀ y ∈ outputs, rule.Admits y) ∧ rule.Spanned outputs

theorem objection_none_iff (rule : Rule α) (x y : α) :
    rule.objection? x y = none ↔ rule.Admits y := by
  cases rule <;> simp [objection?, Admits]

theorem shortfall_none_iff (rule : Rule α) (xs outputs : List α) :
    rule.shortfall? xs outputs = none ↔ rule.Spanned outputs := by
  cases rule with
  | equals y => simp [shortfall?, Spanned]
  | within low high => simp [shortfall?, Spanned]
  | spanning low high innerLow innerHigh =>
    have none_iff (above below : Bool) :
        Missing.of? above below = none ↔ above = true ∧ below = true := by
      cases above <;> cases below <;> simp [Missing.of?]
    simp only [shortfall?, Spanned, Option.map_eq_none_iff, none_iff, List.any_eq_true,
      decide_eq_true_eq]

end Rule

namespace Trial

theorem andThen_of_pass {t : Trial σ α} (next : σ → Trial σ α) (pass : t.halt? = none) :
    t.andThen next = ⟨t.calls ++ (next t.state).calls, t.outputs ++ (next t.state).outputs,
      t.notes ++ (next t.state).notes, (next t.state).halt?, (next t.state).state⟩ := by
  simp [andThen, pass]

theorem andThen_passes_iff (t : Trial σ α) (next : σ → Trial σ α) :
    (t.andThen next).halt? = none ↔ t.halt? = none ∧ (next t.state).halt? = none := by
  cases halt : t.halt? with
  | none => simp [andThen_of_pass next halt]
  | some h => simp [andThen, halt]

variable [Scalar α]

theorem ofCall_passes_iff (rule : Rule α) (f : Probe σ α) (x : α) (s : σ) :
    (ofCall rule f x s).halt? = none ↔ ∃ y next, f x s = (.value y, next) ∧ rule.Admits y := by
  unfold ofCall
  split
  · rename_i y next call
    simp only [Option.map_eq_none_iff, Rule.objection_none_iff]
    constructor
    · intro admits
      exact ⟨y, next, call, admits⟩
    · intro call
      obtain ⟨y', next', call', admits⟩ := call
      rw [call] at call'
      cases call'
      exact admits
  · rename_i violation next call
    simp [call]
  · rename_i message next call
    simp [call]

theorem ofCall_of_value {rule : Rule α} {f : Probe σ α} {x y : α} {s next : σ}
    (call : f x s = (.value y, next)) (admits : rule.Admits y) :
    ofCall rule f x s = ⟨[x], [y], [.compared rule x y], none, next⟩ := by
  have silent := (rule.objection_none_iff x y).mpr admits
  simp [ofCall, call, silent]

theorem ofSamples_of_answers {rule : Rule α} {f : Probe σ α} {xs ys : List α} {s last : σ}
    (answers : Answers f xs s ys last) (admits : ∀ y ∈ ys, rule.Admits y) :
    ofSamples rule f xs s = ⟨xs, ys, xs.zipWith (.compared rule) ys, none, last⟩ := by
  induction answers with
  | nil s => rfl
  | cons call rest ih =>
    have first := ofCall_of_value call (admits _ (by simp))
    have later := ih fun y member => admits y (by simp [member])
    rw [ofSamples, first, andThen_of_pass _ rfl, later]
    rfl

theorem answers_of_ofSamples {rule : Rule α} {f : Probe σ α} {xs : List α} {s : σ}
    (pass : (ofSamples rule f xs s).halt? = none) :
    ∃ ys last, Answers f xs s ys last ∧ ∀ y ∈ ys, rule.Admits y := by
  induction xs generalizing s with
  | nil => exact ⟨[], s, .nil s, by simp⟩
  | cons x xs ih =>
    obtain ⟨first, later⟩ := (andThen_passes_iff _ _).mp pass
    obtain ⟨y, next, call, admits⟩ := (ofCall_passes_iff rule f x s).mp first
    rw [ofCall_of_value call admits] at later
    obtain ⟨ys, last, answers, all⟩ := ih later
    exact ⟨y :: ys, last, .cons call answers, List.forall_mem_cons.mpr ⟨admits, all⟩⟩

theorem ofConstraint_passes_iff (f : Probe σ α) (c : Constraint α) (s : σ) :
    (ofConstraint f c s).halt? = none ↔
      ∃ ys last, Answers f c.samples s ys last ∧ c.rule.Met ys := by
  unfold ofConstraint judged
  constructor
  · intro pass
    split at pass
    · rename_i halt halted
      rw [halted] at pass
      cases pass
    · rename_i ran
      obtain ⟨ys, last, answers, admits⟩ := answers_of_ofSamples ran
      rw [ofSamples_of_answers answers admits] at pass
      exact ⟨ys, last, answers, admits,
        (c.rule.shortfall_none_iff _ _).mp (Option.map_eq_none_iff.mp pass)⟩
  · intro answered
    obtain ⟨ys, last, answers, admits, spanned⟩ := answered
    rw [ofSamples_of_answers answers admits]
    exact Option.map_eq_none_iff.mpr ((c.rule.shortfall_none_iff _ _).mpr spanned)

theorem ofConstraint_of_answers {f : Probe σ α} {c : Constraint α} {ys : List α} {s last : σ}
    (answers : Answers f c.samples s ys last) (met : c.rule.Met ys) :
    ofConstraint f c s =
      ⟨c.samples, ys, c.samples.zipWith (.compared c.rule) ys, none, last⟩ := by
  have spanned := (c.rule.shortfall_none_iff c.samples ys).mpr met.2
  rw [ofConstraint, ofSamples_of_answers answers met.1]
  simp [judged, spanned]

theorem calls_of_pass {f : Probe σ α} {cs : List (Constraint α)} {s : σ}
    (pass : (ofConstraints f cs s).halt? = none) :
    (ofConstraints f cs s).calls = cs.flatMap (·.samples) := by
  induction cs generalizing s with
  | nil => rfl
  | cons c cs ih =>
    obtain ⟨first, later⟩ := (andThen_passes_iff _ _).mp pass
    obtain ⟨ys, last, answers, met⟩ := (ofConstraint_passes_iff f c s).mp first
    rw [ofConstraints, andThen_of_pass _ first, ih later, ofConstraint_of_answers answers met]
    rfl

end Trial

/-- A function whose outcome depends on nothing but the argument. -/
def Subject.steady (f : α → Outcome α) : Subject σ α := fun x s => (f x, s)

theorem steady_answers_iff (f : α → Outcome α) (xs ys : List α) (s last : σ) :
    Answers (Subject.steady f).catching xs s ys last ↔
      last = s ∧ xs.map f = ys.map .value := by
  constructor
  · intro answers
    induction answers with
    | nil s => exact ⟨rfl, rfl⟩
    | @cons x y xs ys s next last call rest ih =>
      obtain ⟨final, same⟩ := ih
      cases outcome : f x with
      | value z => simp_all [Subject.steady, Subject.catching, Outcome.caught]
      | error cause => simp_all [Subject.steady, Subject.catching, Outcome.caught]
      | crash message? => simp_all [Subject.steady, Subject.catching, Outcome.caught]
  · intro outcomes
    obtain ⟨rfl, same⟩ := outcomes
    induction xs generalizing ys with
    | nil =>
      cases ys with
      | nil => exact .nil last
      | cons y ys => simp at same
    | cons x xs ih =>
      cases ys with
      | nil => simp at same
      | cons y ys =>
        obtain ⟨head, tail⟩ := List.cons.inj same
        exact .cons (by simp [Subject.catching, Subject.steady, head, Outcome.caught])
          (ih ys tail)

theorem steady_passes_iff [Scalar α] (f : α → Outcome α) (cs : List (Constraint α)) (s : σ) :
    (Trial.ofConstraints (Subject.steady f).catching cs s).halt? = none ↔
      ∀ c ∈ cs, ∃ ys, c.samples.map f = ys.map .value ∧ c.rule.Met ys := by
  induction cs with
  | nil => simp [Trial.ofConstraints, Trial.idle]
  | cons c cs ih =>
    rw [Trial.ofConstraints, Trial.andThen_passes_iff, List.forall_mem_cons]
    have column : (Trial.ofConstraint (Subject.steady f).catching c s).halt? = none ↔
        ∃ ys, c.samples.map f = ys.map .value ∧ c.rule.Met ys := by
      simp [Trial.ofConstraint_passes_iff, steady_answers_iff]
    rw [column]
    refine and_congr_right ?_
    intro column_met
    obtain ⟨ys, outcomes, met⟩ := column_met
    have answers := (steady_answers_iff f c.samples ys s s).mpr ⟨rfl, outcomes⟩
    rw [Trial.ofConstraint_of_answers answers met]
    exact ih

end CurveSketch
