import CurveSketch.Scale
import CurveSketch.Sketch.Basic

/- The axes of a sketch. An axis shows at each of its positions either a value or nothing; both
   axes become scales by the same steps. -/
namespace CurveSketch
variable {α : Type}

def ticksFrom : Nat → List (Option α) → List (Tick α)
  | _, [] => []
  | i, none :: rest => ticksFrom (i + 1) rest
  | i, some value :: rest => ⟨value, i⟩ :: ticksFrom (i + 1) rest

def closedEnds (slots : List (Option α)) : Bool :=
  (slots.head?.join).isSome && (slots.getLast?.join).isSome

def disorder? (inOrder : α → α → Bool) : List α → Option (α × α)
  | a :: b :: rest => if inOrder a b then disorder? inOrder (b :: rest) else some (a, b)
  | _ => none

def pairMarks : List Char → List α → List (Option α)
  | [], _ => []
  | mark :: marks, values =>
    if mark = blank then none :: pairMarks marks values
    else values.head? :: pairMarks marks values.tail

def Ruler.slots (r : Ruler α) : List (Option α) := pairMarks r.marks r.values

def Ruler.tickCount (r : Ruler α) : Nat := r.marks.countP (· != blank)

variable [Scalar α]

/-- Above is the larger value. The test on y is that of the difference. -/
def Axis.inOrder : Axis → α → α → Bool
  | .x, a, b => a < b
  | .y, a, b => zero < a - b

/-- Counts the ticks, looks at the ends and compares neighbours, in this order. -/
def Axis.scale (axis : Axis) (slots : List (Option α)) : Except (Fault α) (Scale α) :=
  match ticksFrom 0 slots with
  | first :: second :: rest =>
    if closedEnds slots then
      match disorder? axis.inOrder ((first :: second :: rest).map (·.value)) with
      | some (a, b) => .error (.disordered axis a b)
      | none => .ok ⟨first, second, rest⟩
    else .error (.openEnds axis)
  | few => .error (.tooFewTicks axis few.length)

def Ruler.scale (r : Ruler α) : Except (Fault α) (Scale α) :=
  if r.tickCount = r.values.length then Axis.x.scale r.slots
  else .error (.unpairedMarks r.tickCount r.values.length)

namespace Sketch

def across (s : Sketch α) : Except (Fault α) (Scale α) := s.ruler.scale

def down (s : Sketch α) : Except (Fault α) (Scale α) := Axis.y.scale (s.rows.map (·.label?))

end Sketch
end CurveSketch
