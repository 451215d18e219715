import CurveSketch.Fault

/- Sketches as they are written down: rows of glyphs over a ruler. -/
namespace CurveSketch

structure Row (α : Type) where
  label? : Option α
  glyphs : List Char
  deriving BEq, DecidableEq, Repr

def Row.width {α : Type} (r : Row α) : Nat := r.glyphs.length

/-- The marks under a picture that are not blank are ticks, and the values belong to the ticks in
    their order. -/
structure Ruler (α : Type) where
  marks : List Char
  values : List α
  deriving BEq, DecidableEq, Repr

def Ruler.width {α : Type} (r : Ruler α) : Nat := r.marks.length

structure Sketch (α : Type) where
  rows : List (Row α)
  ruler : Ruler α
  deriving BEq, DecidableEq, Repr

namespace Sketch
variable {α : Type}

def columns (s : Sketch α) : List Column := CurveSketch.columns (s.rows.map (·.glyphs))

def checkWidths (s : Sketch α) : Except (Fault α) Unit :=
  if s.rows.all fun row => row.width == s.ruler.width then .ok () else .error .unequalWidths

end Sketch
end CurveSketch
