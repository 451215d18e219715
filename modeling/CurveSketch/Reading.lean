import CurveSketch.Fault
import CurveSketch.Stroke

/- Readings: named ways to understand a column. A column has a meaning when exactly one of the
   readings at hand understands it. -/
namespace CurveSketch
variable {α : Type}

/-- A reading answers a column it understands with the constraint that the column states, given
    the scale of the rows and the samples of the column. -/
structure Reading (α : Type) where
  id : String
  read? : Column → Option (Scale α → List α → Constraint α)

structure Meaning (α : Type) where
  reading : String
  states : Scale α → List α → Constraint α

def Reading.meaning? (r : Reading α) (c : Column) : Option (Meaning α) :=
  (r.read? c).map fun states => ⟨r.id, states⟩

def Column.interpret (readings : List (Reading α)) (c : Column) :
    Except (Fault α) (Option (Meaning α)) :=
  if c.isBlank then .ok none
  else
    match readings.filterMap (·.meaning? c) with
    | [] => .error (.unreadable c)
    | [meaning] => .ok (some meaning)
    | several => .error (.ambiguous (several.map (·.reading)) c)

namespace Reading
variable [Scalar α]

def ofStroke (id : String) (stroke? : Column → Option Stroke) : Reading α :=
  ⟨id, fun c => (stroke? c).map fun s scale samples => ⟨samples, s.rule scale⟩⟩

def exactValue : Reading α := ofStroke "exact_value" Stroke.point?
def strictRange : Reading α := ofStroke "vertical_range_strict" Stroke.line?
def looseRange : Reading α := ofStroke "vertical_range_loose" Stroke.band?

def standard : List (Reading α) := [exactValue, strictRange, looseRange]

end Reading
end CurveSketch
