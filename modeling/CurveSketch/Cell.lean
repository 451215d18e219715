import CurveSketch.Scalar

/- The values one character position stands for: a center with half a step on either side. -/
namespace CurveSketch

structure Cell (α : Type) where
  lower : α
  upper : α
  center : α
  deriving BEq, DecidableEq, Repr

namespace Cell
variable {α : Type} [Scalar α]

def around (center step : α) : Cell α :=
  let reach := half (Scalar.magnitude step)
  ⟨center - reach, center + reach, center⟩

def width (c : Cell α) : α := c.upper - c.lower

abbrev Contains (c : Cell α) (v : α) : Prop := c.lower ≤ v ∧ v ≤ c.upper

/-- The middles of `count` equal slices, ascending. A single slice has the center itself. -/
def midpoints (c : Cell α) (count : Nat) : List α :=
  if count = 1 then [c.center]
  else
    let reach := half (c.width / (count : α))
    (List.range count).map fun (k : Nat) => c.lower + reach + (k : α) * reach * two

end Cell
end CurveSketch
