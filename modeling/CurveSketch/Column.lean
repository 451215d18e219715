/- Glyph columns, read top to bottom, and the slicing of rows into columns. -/
namespace CurveSketch

def blank : Char := ' '

abbrev Column := List Char

/-- First and last row of a gap-free run of one glyph. -/
structure Run where
  top : Nat
  bottom : Nat
  deriving DecidableEq, Repr

def Run.height (r : Run) : Nat := r.bottom - r.top + 1

namespace Column

def isBlank (c : Column) : Bool := c.all (· == blank)

def onlyBlankAnd (c : Column) (glyph : Char) : Bool := c.all fun g => g == blank || g == glyph

def positionsFrom (glyph : Char) : Nat → Column → List Nat
  | _, [] => []
  | row, g :: rest =>
    if g = glyph then row :: positionsFrom glyph (row + 1) rest
    else positionsFrom glyph (row + 1) rest

def positions (c : Column) (glyph : Char) : List Nat := positionsFrom glyph 0 c

def endOfChain? (row : Nat) : List Nat → Option Nat
  | [] => some row
  | next :: rest => if next = row + 1 then endOfChain? next rest else none

def run? (c : Column) (glyph : Char) : Option Run :=
  match c.positions glyph with
  | [] => none
  | top :: rest => (endOfChain? top rest).map fun bottom => ⟨top, bottom⟩

end Column

def slices : Nat → List (List Char) → List Column
  | 0, _ => []
  | width + 1, rows => rows.filterMap List.head? :: slices width (rows.map List.tail)

/-- One column per glyph of the first row. A row that is too short for a column is passed over. -/
def columns : List (List Char) → List Column
  | [] => []
  | first :: rest => slices first.length (first :: rest)

end CurveSketch
