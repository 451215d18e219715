import CurveSketch.Sketch.Conversion
import CurveSketch.Trial

/- Checks: a sketch is converted and the function is tried against all of it. -/
namespace CurveSketch

def Halt.message? : Halt Float → Option String
  | .malformed fault => some fault.message
  | .violated violation => some violation.message
  | .escaped message? => message?

variable {σ α : Type}

namespace Trial

def after (notes : List (Note α)) (t : Trial σ α) : Trial σ α :=
  { t with notes := notes ++ t.notes }

def crashing (t : Trial σ Float) : Trial σ Float :=
  { t with halt? := t.halt?.map fun halt => .escaped halt.message? }

end Trial

def totalSamples : List (Constraint α) → Nat
  | [] => 0
  | c :: rest => c.samples.length + totalSamples rest

variable [Scalar α]

def Sketch.trial (s : Sketch α) (options : Options) (f : Probe σ α) (start : σ) : Trial σ α :=
  let conversion := s.convert options
  match conversion.result with
  | .error fault => ⟨[], [], conversion.notes, some (.malformed fault), start⟩
  | .ok constraints =>
    (Trial.ofConstraints f constraints start).after
      (conversion.notes ++ [.evaluating constraints.length (totalSamples constraints)])

namespace Subject

/-- Does the function conform to the sketch? Crashes count as violations. -/
def checkWith (f : Subject σ α) (options : Options) (s : Sketch α) (start : σ) : Trial σ α :=
  s.trial options f.catching start

def check (f : Subject σ α) (samples : Nat) (s : Sketch α) (start : σ) : Trial σ α :=
  f.checkWith ⟨samples⟩ s start

/-- The same question for a function that reports its errors; crashes pass through. -/
def checkFallible (f : Subject σ α) (samples : Nat) (s : Sketch α) (start : σ) : Trial σ α :=
  s.trial ⟨samples⟩ f.reporting start

def demand (f : Subject σ Float) (samples : Nat) (s : Sketch Float) (start : σ) :
    Trial σ Float :=
  (f.check samples s start).crashing

end Subject
end CurveSketch
