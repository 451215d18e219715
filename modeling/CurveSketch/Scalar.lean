/- The numbers of a picture. A picture is measured in doubles when it is tested and in exact
   rationals when it is reasoned about; both use the same definitions through this class. -/
namespace CurveSketch

class Scalar (α : Type) extends
    Add α, Sub α, Mul α, Div α, NatCast α, LT α, LE α, BEq α where
  magnitude : α → α
  decideLt : DecidableLT α
  decideLe : DecidableLE α

attribute [reducible] Scalar.decideLt Scalar.decideLe
attribute [instance] Scalar.decideLt Scalar.decideLe

instance : Scalar Float where
  natCast := Float.ofNat
  magnitude := Float.abs
  decideLt := inferInstance
  decideLe := inferInstance

instance : Scalar Rat where
  magnitude := Rat.abs
  decideLt := inferInstance
  decideLe := inferInstance

variable {α : Type} [Scalar α]

def zero : α := ((0 : Nat) : α)
def two : α := ((2 : Nat) : α)

/-- Zero divided by itself: no number at all among the doubles. -/
def undefined : α := zero / zero

def half (a : α) : α := a / two

end CurveSketch
