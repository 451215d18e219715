import CurveSketch.Scalar

/- What one column asks of the tested function: a rule for its outputs at the samples of x. -/
namespace CurveSketch

inductive Rule (α : Type) where
  | equals (y : α)
  | within (low high : α)
  /-- Every output lies in the closed range, some output above `innerHigh` and some below
      `innerLow`. -/
  | spanning (low high innerLow innerHigh : α)
  deriving BEq, DecidableEq, Repr

structure Constraint (α : Type) where
  samples : List α
  rule : Rule α
  deriving BEq, DecidableEq, Repr

def Constraint.equals {α : Type} (y : α) (samples : List α) : Constraint α := ⟨samples, .equals y⟩

end CurveSketch
