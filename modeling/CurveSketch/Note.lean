import CurveSketch.Column
import CurveSketch.Constraint
import CurveSketch.Text.Decimal
import CurveSketch.Text.Quoted

/- Notes: what a conversion and a trial tell about their progress. -/
namespace CurveSketch

inductive Level where
  | info
  | debug
  | trace
  deriving DecidableEq, Repr

def Level.name : Level → String
  | .info => "INFO"
  | .debug => "DEBUG"
  | .trace => "TRACE"

def Level.detail : Level → Nat
  | .info => 0
  | .debug => 1
  | .trace => 2

inductive Note (α : Type) where
  | columnRead (column : Column) (reading : String)
  | converted (width height constraints samples : Nat)
  | evaluating (constraints samples : Nat)
  | compared (rule : Rule α) (x output : α)
  deriving DecidableEq, Repr

namespace Note
variable {α : Type}

def level : Note α → Level
  | .columnRead _ _ => .trace
  | .converted _ _ _ _ => .debug
  | .evaluating _ _ => .debug
  | .compared _ _ _ => .trace

def shownAt (limit : Level) (n : Note α) : Bool := n.level.detail ≤ limit.detail

def origin : Note α → String
  | .columnRead _ _ => "plot_assert_core::registry"
  | .converted _ _ _ _ => "plot_assert_core::conversion"
  | .evaluating _ _ => "plot_assert_core::assertions"
  | .compared _ _ _ => "plot_assert_core::constraint"

def call (x output : Float) : String :=
  "f(" ++ Decimal.text x ++ ") = " ++ Decimal.text output ++ ", expected "

def range (low high : Float) : String :=
  "[" ++ Decimal.text low ++ ", " ++ Decimal.text high ++ "]"

def text : Note Float → String
  | .columnRead column reading => "column " ++ Text.quote column ++ " -> " ++ reading
  | .converted width height constraints samples =>
    "converted " ++ toString width ++ "x" ++ toString height ++ " plot into "
      ++ toString constraints ++ " constraint(s) (" ++ toString samples
      ++ " sample(s) per character)"
  | .evaluating constraints samples =>
    "evaluating " ++ toString constraints ++ " constraint(s) over " ++ toString samples
      ++ " sample(s)"
  | .compared (.equals y) x output => "exact: " ++ call x output ++ Decimal.text y
  | .compared (.within low high) x output => "range: " ++ call x output ++ range low high
  | .compared (.spanning low high _ _) x output => "range: " ++ call x output ++ range low high

end Note
end CurveSketch
