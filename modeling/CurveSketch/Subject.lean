import CurveSketch.Violation

/- The function under test. A call may fail or crash, and it may depend on calls before it, by
   way of a state. -/
namespace CurveSketch

inductive Outcome (α : Type) where
  | value (y : α)
  | error (cause : String)
  | crash (message? : Option String)
  deriving DecidableEq, Repr

/-- An outcome as a trial takes it: a failure is a violation, an escape ends the whole check. -/
inductive Answer (α : Type) where
  | value (y : α)
  | failure (violation : Violation α)
  | escape (message? : Option String)
  deriving DecidableEq, Repr

abbrev Subject (σ α : Type) := α → σ → Outcome α × σ
abbrev Probe (σ α : Type) := α → σ → Answer α × σ

variable {σ α : Type}

def namelessCrash : String := "function panicked"

def crashCause (message? : Option String) : String := message?.getD namelessCrash

namespace Outcome

def caught (x : α) : Outcome α → Answer α
  | .value y => .value y
  | .error cause => .failure (.failed x cause)
  | .crash message? => .failure (.failed x (crashCause message?))

def reported (x : α) : Outcome α → Answer α
  | .value y => .value y
  | .error cause => .failure (.failed x cause)
  | .crash message? => .escape message?

end Outcome

namespace Subject

def catching (f : Subject σ α) : Probe σ α := fun x s =>
  let (outcome, next) := f x s
  (outcome.caught x, next)

def reporting (f : Subject σ α) : Probe σ α := fun x s =>
  let (outcome, next) := f x s
  (outcome.reported x, next)

end Subject
end CurveSketch
