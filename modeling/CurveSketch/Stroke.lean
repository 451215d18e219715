import CurveSketch.Column
import CurveSketch.Constraint
import CurveSketch.Scale

/- Strokes: what can be drawn in a column, how a stroke looks, how it is recognised, and the rule
   it stands for on a scale of rows. -/
namespace CurveSketch

inductive Stroke where
  | point (row : Nat)
  | band (run : Run)
  | line (run : Run)
  deriving DecidableEq, Repr

namespace Stroke

def pointGlyph : Char := 'X'
def bandGlyph : Char := 'i'
def lineGlyph : Char := 'I'

def covers (run : Run) (row : Nat) : Bool := run.top ≤ row && row ≤ run.bottom

def glyphAt (row : Nat) : Stroke → Char
  | .point r => if r = row then pointGlyph else blank
  | .band run => if covers run row then bandGlyph else blank
  | .line run => if covers run row then lineGlyph else blank

def draw (height : Nat) : Option Stroke → Column
  | none => List.replicate height blank
  | some s => (List.range height).map s.glyphAt

def point? (c : Column) : Option Stroke :=
  if c.onlyBlankAnd pointGlyph then
    match c.positions pointGlyph with
    | [row] => some (.point row)
    | _ => none
  else none

def band? (c : Column) : Option Stroke :=
  if c.onlyBlankAnd bandGlyph then (c.run? bandGlyph).map .band else none

def line? (c : Column) : Option Stroke :=
  if c.onlyBlankAnd lineGlyph then (c.run? lineGlyph).map .line else none

def thick : Nat := 3

variable {α : Type} [Scalar α]

def outer (scale : Scale α) (run : Run) : Rule α :=
  .within (scale.cell run.bottom).lower (scale.cell run.top).upper

/-- A thick line asks for outputs in both of its outer rows; a thin one has no inner band and
    reads as a band. -/
def rule (scale : Scale α) : Stroke → Rule α
  | .point row => .equals (scale.cell row).center
  | .band run => outer scale run
  | .line run =>
    if run.height < thick then outer scale run
    else .spanning (scale.cell run.bottom).lower (scale.cell run.top).upper
      (scale.cell (run.bottom - 1)).lower (scale.cell (run.top + 1)).upper

end Stroke
end CurveSketch
