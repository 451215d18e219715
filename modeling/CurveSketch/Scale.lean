import CurveSketch.Cell

/- Scales: ticks give the value at some positions, and every other position is interpolated
   along the straight line through two neighbouring ticks. -/
namespace CurveSketch

structure Tick (α : Type) where
  value : α
  position : Nat
  deriving BEq, DecidableEq, Repr

/-- A scale has two ticks at least, in order of position. -/
structure Scale (α : Type) where
  first : Tick α
  second : Tick α
  rest : List (Tick α)
  deriving BEq, DecidableEq, Repr

structure Segment (α : Type) where
  start : Tick α
  stop : Tick α
  deriving BEq, DecidableEq, Repr

namespace Segment
variable {α : Type} [Scalar α]

def step (g : Segment α) : α :=
  (g.stop.value - g.start.value) / ((g.stop.position - g.start.position : Nat) : α)

def value (g : Segment α) (i : Nat) : α :=
  g.start.value + ((i : α) - (g.start.position : α)) * g.step

def cell (g : Segment α) (i : Nat) : Cell α := .around (g.value i) g.step

end Segment

namespace Scale
variable {α : Type}

def toList (s : Scale α) : List (Tick α) := s.first :: s.second :: s.rest

def ofList? : List (Tick α) → Option (Scale α)
  | first :: second :: rest => some ⟨first, second, rest⟩
  | _ => none

def last (s : Scale α) : Tick α := s.rest.getLastD s.second

/-- The first segment that ends right of `i`; the last one when none does. -/
def bracket (a b : Tick α) : List (Tick α) → Nat → Segment α
  | [], _ => ⟨a, b⟩
  | c :: rest, i => if i < b.position then ⟨a, b⟩ else bracket b c rest i

def segment (s : Scale α) (i : Nat) : Segment α := bracket s.first s.second s.rest i

variable [Scalar α]

def cell (s : Scale α) (i : Nat) : Cell α := (s.segment i).cell i

def domain (s : Scale α) : α × α :=
  ((s.cell s.first.position).center, (s.cell s.last.position).center)

/-- The points at which the cell of position `i` is sampled: `count` midpoints, without those
    that lie outside the domain. -/
def samples (s : Scale α) (count i : Nat) : List α :=
  let ends := s.domain
  ((s.cell i).midpoints count).filter fun x => ends.1 ≤ x ∧ x ≤ ends.2

def unmarked : Scale α := ⟨⟨undefined, 0⟩, ⟨undefined, 0⟩, []⟩

/-- The scale of any list of ticks. A scale takes two ticks; fewer mark nothing. -/
def ofTicks (ticks : List (Tick α)) : Scale α := (ofList? ticks).getD unmarked

end Scale
end CurveSketch
