import CurveSketch.Column
import CurveSketch.Text.Decimal
import CurveSketch.Text.Quoted

/- Faults of a picture. They are found before the tested function is called. -/
namespace CurveSketch

inductive Axis where
  | x
  | y
  deriving DecidableEq, Repr

def Axis.letter : Axis → String
  | .x => "X"
  | .y => "Y"

/-- Values ascend to the right and descend towards the bottom. -/
def Axis.order : Axis → String
  | .x => "ascending"
  | .y => "descending"

inductive Fault (α : Type) where
  | unequalWidths
  | tooFewTicks (axis : Axis) (found : Nat)
  | openEnds (axis : Axis)
  | unpairedMarks (marks values : Nat)
  | disordered (axis : Axis) (first second : α)
  | unreadable (column : Column)
  | ambiguous (readings : List String) (column : Column)
  | tooFewSamples (count : Nat)
  | noRuler
  deriving DecidableEq, Repr

def Fault.message : Fault Float → String
  | .unequalWidths =>
    "Visualisation rows and the X axis markers string must have the same length!"
  | .tooFewTicks axis found =>
    toString found ++ " " ++ axis.letter
      ++ " axis marker(s) found, and there should be at least two!"
  | .openEnds .y => "Y axis should have markers for first and last row!"
  | .openEnds .x => "X axis should have markers for first and last character!"
  | .unpairedMarks marks values =>
    "X axis has " ++ toString marks ++ " marker(s) but " ++ toString values ++ " value(s)!"
  | .disordered axis first second =>
    "Given " ++ axis.letter ++ " axis markers should have " ++ axis.order
      ++ " values (found: " ++ Decimal.text first ++ ", " ++ Decimal.text second ++ ")!"
  | .unreadable column =>
    "No constraints match this visualisation column: " ++ String.ofList column
  | .ambiguous readings column =>
    "Ambiguous constraint; more than 1 constraint type matches: ["
      ++ String.intercalate ", " readings ++ "] (column: " ++ Text.quote column ++ ")"
  | .tooFewSamples count =>
    "Samples per character must be at least 1 (got " ++ toString count ++ ")!"
  | .noRuler => "Visualisation has no X axis; call x_axis() before build()!"

end CurveSketch
