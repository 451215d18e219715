import CurveSketch.Note
import CurveSketch.Reading
import CurveSketch.Sketch.Axes

/- From a sketch to constraints: one per column that is not blank, left to right. -/
namespace CurveSketch

structure Options where
  samples : Nat := 1
  deriving DecidableEq, Repr

/-- The notes come in the order in which things happened, up to a fault if there is one. -/
structure Conversion (α : Type) where
  notes : List (Note α)
  result : Except (Fault α) (List (Constraint α))

variable {α : Type}

def Options.validate (o : Options) : Except (Fault α) Unit :=
  if o.samples = 0 then .error (.tooFewSamples o.samples) else .ok ()

def Meaning.note (m : Meaning α) (column : Column) : Note α := .columnRead column m.reading

def Meaning.constraint (m : Meaning α) (samples : List α) (down : Scale α) : Constraint α :=
  m.states down samples

variable [Scalar α]

def Conversion.ofColumns (readings : List (Reading α)) (across down : Scale α) (count : Nat) :
    Nat → List Column → Conversion α
  | _, [] => ⟨[], .ok []⟩
  | i, column :: rest =>
    match column.interpret readings with
    | .error fault => ⟨[], .error fault⟩
    | .ok none => ofColumns readings across down count (i + 1) rest
    | .ok (some meaning) =>
      let later := ofColumns readings across down count (i + 1) rest
      ⟨meaning.note column :: later.notes,
        later.result.map (meaning.constraint (across.samples count i) down :: ·)⟩

def Conversion.summarised (width height count : Nat) (c : Conversion α) : Conversion α :=
  match c.result with
  | .ok constraints =>
    ⟨c.notes ++ [.converted width height constraints.length count], .ok constraints⟩
  | .error fault => ⟨c.notes, .error fault⟩

def Sketch.scales (s : Sketch α) (options : Options) :
    Except (Fault α) (Scale α × Scale α) := do
  options.validate
  s.checkWidths
  let across ← s.across
  let down ← s.down
  return (across, down)

def Sketch.convertWith (s : Sketch α) (options : Options) (readings : List (Reading α)) :
    Conversion α :=
  match s.scales options with
  | .error fault => ⟨[], .error fault⟩
  | .ok (across, down) =>
    (Conversion.ofColumns readings across down options.samples 0 s.columns).summarised
      s.ruler.width s.rows.length options.samples

def Sketch.convert (s : Sketch α) (options : Options) : Conversion α :=
  s.convertWith options Reading.standard

end CurveSketch
