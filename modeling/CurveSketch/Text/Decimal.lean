/- Decimal text of doubles: the fewest digits that read back as the same double, written
   positionally. All comparisons are exact, on natural numbers. -/
namespace CurveSketch.Decimal

/-- The positive reals that round to one double. The double itself is `center` units of
    `1 / 10 ^ places`; the ends of the window are counted in quarters of that unit. -/
structure Window where
  center : Nat
  places : Nat
  low : Nat
  high : Nat
  closed : Bool
  deriving DecidableEq, Repr

/-- The window of the double `mantissa * 2 ^ exponent / 2 ^ 1075`. Below a power of two
    the next double is half as far away as above it, except where the spacing is already least. -/
def Window.ofParts (mantissa exponent : Nat) (narrow : Bool) : Window :=
  let unit := Nat.pow 2 (exponent - 1075) * Nat.pow 5 (1075 - exponent)
  let center := mantissa * unit
  { center
    places := 1075 - exponent
    low := 4 * center - (if narrow then unit else 2 * unit)
    high := 4 * center + 2 * unit
    closed := mantissa % 2 = 0 }

def Window.holds (w : Window) (n : Nat) : Bool :=
  if w.closed then w.low ≤ 4 * n && 4 * n ≤ w.high else w.low < 4 * n && 4 * n < w.high

/-- The multiple of `grid` in the window that is nearest to the center, as the number of grid
    steps. Only the two neighbours of the center can be nearest; of two equally near ones the
    upper is taken. -/
def Window.nearest? (w : Window) (grid : Nat) : Option Nat :=
  let below := w.center / grid
  let above := below + 1
  match w.holds (below * grid), w.holds (above * grid) with
  | true, true => some (if 2 * w.center < (below + above) * grid then below else above)
  | true, false => some below
  | false, true => some above
  | false, false => none

def Window.coarsest (w : Window) : Nat → Nat × Nat
  | 0 => (w.center, 0)
  | k + 1 =>
    match w.nearest? (Nat.pow 10 (k + 1)) with
    | some digits => (digits, k + 1)
    | none => w.coarsest k

def Window.shortest (w : Window) : Nat × Nat := w.coarsest (w.center.log2 / 3 + 1)

def zeros (n : Nat) : List Char := List.replicate n '0'

def pointed (n places : Nat) : List Char :=
  if places = 0 then Nat.toDigits 10 n
  else
    let digits := Nat.toDigits 10 n
    let padded := zeros (places + 1 - digits.length) ++ digits
    padded.take (padded.length - places) ++ '.' :: padded.drop (padded.length - places)

def Window.text (w : Window) : List Char :=
  let (digits, grid) := w.shortest
  if grid ≤ w.places then pointed digits (w.places - grid)
  else pointed digits 0 ++ zeros (grid - w.places)

def leadingOne : Nat := 0x10000000000000

def unsigned (exponent fraction : Nat) : List Char :=
  if exponent = 0x7FF then ['i', 'n', 'f']
  else if exponent = 0 then
    if fraction = 0 then ['0'] else (Window.ofParts fraction 1 false).text
  else (Window.ofParts (leadingOne + fraction) exponent (fraction = 0 && 1 < exponent)).text

def text (x : Float) : String :=
  let bits := x.toBits.toNat
  let fraction := bits % leadingOne
  let exponent := bits / leadingOne % 0x800
  let digits := unsigned exponent fraction
  if exponent = 0x7FF ∧ fraction ≠ 0 then "NaN"
  else if bits < leadingOne * 0x800 then String.ofList digits
  else String.ofList ('-' :: digits)

end CurveSketch.Decimal
