/- Sets of characters, given as closed ranges of code points that ascend and lie apart. -/
namespace CurveSketch.Text

abbrev Ranges := List (Nat × Nat)

/-- Ranges ascend, so the search ends at the first one that starts too high. -/
def Ranges.covers : Ranges → Nat → Bool
  | [], _ => false
  | (low, high) :: rest, n => if n < low then false else n ≤ high || covers rest n

end CurveSketch.Text
