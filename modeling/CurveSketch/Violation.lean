import CurveSketch.Constraint
import CurveSketch.Text.Decimal

/- Violations: how the tested function can disagree with a constraint. -/
namespace CurveSketch

inductive Missing where
  | above
  | below
  | both
  deriving DecidableEq, Repr

def Missing.text : Missing → String
  | .above => "above"
  | .below => "below"
  | .both => "above and below"

def Missing.of? : (above below : Bool) → Option Missing
  | true, true => none
  | false, true => some .above
  | true, false => some .below
  | false, false => some .both

inductive Violation (α : Type) where
  | unequal (x output expected : α)
  | outside (x output low high : α)
  | unspanned (firstX lastX low high : α) (missing : Missing)
  | failed (x : α) (cause : String)
  deriving DecidableEq, Repr

namespace Violation
variable {α : Type}

/-- The sample at fault. A band that is not spanned is the fault of all samples together. -/
def x? : Violation α → Option α
  | .unequal x _ _ => some x
  | .outside x _ _ _ => some x
  | .unspanned _ _ _ _ _ => none
  | .failed x _ => some x

def cause? : Violation α → Option String
  | .failed _ cause => some cause
  | _ => none

def message : Violation Float → String
  | .unequal x output expected =>
    "For x=" ++ Decimal.text x ++ ": " ++ Decimal.text output ++ " is not equal to "
      ++ Decimal.text expected ++ "!"
  | .outside x output low high =>
    "For x=" ++ Decimal.text x ++ ": " ++ Decimal.text output ++ " is not between "
      ++ Decimal.text low ++ " and " ++ Decimal.text high ++ "!"
  | .unspanned firstX lastX low high missing =>
    "For a column with X values in range " ++ Decimal.text firstX ++ " to "
      ++ Decimal.text lastX ++ ", with minY=" ++ Decimal.text low ++ " and maxY="
      ++ Decimal.text high ++ ", values " ++ missing.text ++ " the inner range are missing!"
  | .failed x _ => "For x=" ++ Decimal.text x ++ ": the function throws an exception!"

end Violation

namespace Rule
variable {α : Type} [Scalar α]

def objection? : Rule α → α → α → Option (Violation α)
  | .equals y, x, output => if output == y then none else some (.unequal x output y)
  | .within low high, x, output =>
    if low ≤ output ∧ output ≤ high then none else some (.outside x output low high)
  | .spanning low high _ _, x, output =>
    if low ≤ output ∧ output ≤ high then none else some (.outside x output low high)

def shortfall? : Rule α → List α → List α → Option (Violation α)
  | .spanning low high innerLow innerHigh, samples, outputs =>
    (Missing.of? (outputs.any fun y => innerHigh < y) (outputs.any fun y => y < innerLow)).map
      (.unspanned (samples.headD undefined) (samples.getLastD undefined) low high ·)
  | _, _, _ => none

end Rule
end CurveSketch
