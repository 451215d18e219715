import CurveSketch.Fault
import CurveSketch.Note
import CurveSketch.Subject

/- Trials: the tested function is called at the samples of the constraints, in order, and the
   trial halts at the first disagreement. -/
namespace CurveSketch

/-- Why a check ends early: the sketch is at fault, the function is, or the function crashed and
    nothing caught it. -/
inductive Halt (α : Type) where
  | malformed (fault : Fault α)
  | violated (violation : Violation α)
  | escaped (message? : Option String)
  deriving DecidableEq, Repr

structure Trial (σ α : Type) where
  calls : List α
  outputs : List α
  notes : List (Note α)
  halt? : Option (Halt α)
  state : σ

namespace Trial
variable {σ α : Type}

def idle (s : σ) : Trial σ α := ⟨[], [], [], none, s⟩

def andThen (t : Trial σ α) (next : σ → Trial σ α) : Trial σ α :=
  match t.halt? with
  | some _ => t
  | none =>
    let u := next t.state
    ⟨t.calls ++ u.calls, t.outputs ++ u.outputs, t.notes ++ u.notes, u.halt?, u.state⟩

variable [Scalar α]

def ofCall (rule : Rule α) (f : Probe σ α) (x : α) (s : σ) : Trial σ α :=
  match f x s with
  | (.value y, next) =>
    ⟨[x], [y], [.compared rule x y], (rule.objection? x y).map .violated, next⟩
  | (.failure violation, next) => ⟨[x], [], [], some (.violated violation), next⟩
  | (.escape message?, next) => ⟨[x], [], [], some (.escaped message?), next⟩

def ofSamples (rule : Rule α) (f : Probe σ α) : List α → σ → Trial σ α
  | [], s => idle s
  | x :: rest, s => (ofCall rule f x s).andThen (ofSamples rule f rest)

/-- A column that passed at every sample is judged once more as a whole. -/
def judged (c : Constraint α) (t : Trial σ α) : Trial σ α :=
  match t.halt? with
  | some _ => t
  | none => { t with halt? := (c.rule.shortfall? c.samples t.outputs).map .violated }

def ofConstraint (f : Probe σ α) (c : Constraint α) (s : σ) : Trial σ α :=
  (ofSamples c.rule f c.samples s).judged c

def ofConstraints (f : Probe σ α) : List (Constraint α) → σ → Trial σ α
  | [], s => idle s
  | c :: rest, s => (ofConstraint f c s).andThen (ofConstraints f rest)

end Trial
end CurveSketch
