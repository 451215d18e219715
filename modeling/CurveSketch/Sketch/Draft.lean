import CurveSketch.Sketch.Basic

/- Drafting a sketch step by step. Nothing but the presence of a ruler is asked of a draft. -/
namespace CurveSketch

structure Draft (α : Type) where
  rows : List (Row α)
  ruler? : Option (Ruler α)
  deriving BEq, DecidableEq, Repr

namespace Draft
variable {α : Type}

inductive Step (α : Type) where
  | row (glyphs : List Char)
  | labeledRow (label : α) (glyphs : List Char)
  /-- A later ruler replaces an earlier one. -/
  | ruler (marks : List Char) (values : List α)
  | restart
  deriving DecidableEq, Repr

def empty : Draft α := ⟨[], none⟩

def apply (d : Draft α) : Step α → Draft α
  | .row glyphs => { d with rows := d.rows ++ [⟨none, glyphs⟩] }
  | .labeledRow label glyphs => { d with rows := d.rows ++ [⟨some label, glyphs⟩] }
  | .ruler marks values => { d with ruler? := some ⟨marks, values⟩ }
  | .restart => empty

def ofSteps (steps : List (Step α)) : Draft α := steps.foldl apply empty

/-- Whether the parts fit together is asked when the sketch is converted. -/
def build (d : Draft α) : Except (Fault α) (Sketch α) :=
  match d.ruler? with
  | some ruler => .ok ⟨d.rows, ruler⟩
  | none => .error .noRuler

end Draft
end CurveSketch
