/- Reading a count: decimal digits, with an optional plus sign, up to the largest machine word. -/
namespace CurveSketch.Numeral

inductive Problem where
  | empty
  | badDigit
  | tooLarge
  deriving DecidableEq, Repr

def Problem.message : Problem → String
  | .empty => "cannot parse integer from empty string"
  | .badDigit => "invalid digit found in string"
  | .tooLarge => "number too large to fit in target type"

def largest : Nat := 0xFFFFFFFFFFFFFFFF

def digit? (c : Char) : Option Nat :=
  if c.isDigit then some (c.toNat - '0'.toNat) else none

/-- Digits are taken one at a time and the first problem met is the one reported, so a number
    that is already too large hides a bad digit after it. -/
def accumulate (value : Nat) : List Char → Except Problem Nat
  | [] => .ok value
  | c :: rest =>
    match digit? c with
    | none => .error .badDigit
    | some d =>
      let next := 10 * value + d
      if largest < next then .error .tooLarge else accumulate next rest

def read : List Char → Except Problem Nat
  | [] => .error .empty
  | '+' :: c :: rest => accumulate 0 (c :: rest)
  | text => accumulate 0 text

end CurveSketch.Numeral
