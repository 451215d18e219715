import CurveSketch.Proofs.DoubleArithmetic
import CurveSketch.Proofs.Nearness
import Mathlib.Order.WithBot

/- How high doubles reach: infinity above all numbers, and what is no number below them. Sums and
   products of doubles that do not fall reach no lower than their parts, whether they overflow or
   not. -/
namespace CurveSketch

namespace Extended

def height : Extended → WithBot (WithTop ℚ)
  | .undefined => ⊥
  | .infinite true => ⊥
  | .infinite false => ((⊤ : WithTop ℚ) : WithBot (WithTop ℚ))
  | .number x => ((x : WithTop ℚ) : WithBot (WithTop ℚ))

variable {p q : Extended} {x y : ℚ}

theorem height_number_le : (number x).height ≤ (number y).height ↔ x ≤ y := by
  simp [height]

/-- What reaches a number is a number itself or infinite. -/
theorem of_number_le (high : (number x).height ≤ p.height) :
    (∃ y, p = .number y ∧ x ≤ y) ∨ p = .infinite false := by
  cases p with
  | undefined => simp [height] at high
  | infinite s => cases s <;> simp [height] at high ⊢
  | number y => exact Or.inl ⟨y, rfl, height_number_le.mp high⟩

theorem number_le_infinite (x : ℚ) : (number x).height ≤ (infinite false).height := by
  simp [height]

theorem number_le_stored (rep : Representable x) (within : |x| < 2 ^ (1024 : ℤ)) (le : x ≤ y) :
    (number x).height ≤ (stored y).height := by
  have bound := le_rounded rep le
  rw [stored, bounded]
  split
  · exact height_number_le.mpr bound
  · rename_i large
    have positive : ¬ rounded y < 0 := by
      intro negative
      rw [abs_of_neg negative, not_lt] at large
      rw [abs_lt] at within
      linarith [within.1]
    rw [decide_eq_false positive]
    exact number_le_infinite x

theorem stored_defined (x : ℚ) : stored x ≠ .undefined := by
  intro none
  rw [stored, bounded] at none
  split at none <;> cases none

theorem zero_le_stored (nonneg : 0 ≤ y) : (number 0).height ≤ (stored y).height :=
  number_le_stored representable_zero (by rw [abs_zero]; exact power_pos 1024) nonneg

theorem zero_le_mul (left : 0 < x) (right : (number 0).height ≤ p.height) :
    (number 0).height ≤ ((number x).mul p).height := by
  rcases of_number_le right with ⟨y, rfl, nonneg⟩ | rfl
  · exact zero_le_stored (mul_nonneg left.le nonneg)
  · rw [mul, if_neg left.ne', decide_eq_false (not_lt.mpr left.le)]
    exact number_le_infinite 0

theorem add_undefined (p : Extended) : p.add .undefined = .undefined := by
  cases p <;> rfl

theorem mul_swap (p q : Extended) : p.mul q = q.mul p := by
  cases p with
  | undefined => cases q <;> rfl
  | infinite s =>
    cases q with
    | undefined => rfl
    | infinite t => exact congrArg infinite bne_comm
    | number y => simp only [mul, bne_comm (a := s)]
  | number x =>
    cases q with
    | undefined => rfl
    | infinite t => simp only [mul, bne_comm (a := t)]
    | number y => simp only [mul, mul_comm x y]

theorem zero_le_divide (left : (number 0).height ≤ p.height) (right : 0 < y) :
    (number 0).height ≤ (p.divide y).height := by
  rcases of_number_le left with ⟨x, rfl, nonneg⟩ | rfl
  · exact zero_le_stored (div_nonneg nonneg right.le)
  · rw [divide, decide_eq_false (not_lt.mpr right.le)]
    exact number_le_infinite 0

end Extended

section
variable {a b : Float}

theorem le_iff_compare :
    a ≤ b ↔ ((reading a).compare (reading b)).any (·.isLE) = true := by
  rw [float_le_compare, compare_reading]

theorem readings_of_lt (less : a < b) :
    (reading a = .infinite true ∨ ∃ x, reading a = .number x) ∧
      (reading b = .infinite false ∨ ∃ y, reading b = .number y) := by
  rw [float_lt_compare, compare_reading] at less
  constructor
  · cases left : reading a with
    | undefined => rw [left] at less; cases less
    | number x => exact Or.inr ⟨x, rfl⟩
    | infinite s =>
      cases s with
      | true => exact Or.inl rfl
      | false =>
        rw [left] at less
        cases right : reading b with
        | undefined => rw [right] at less; cases less
        | infinite t => rw [right] at less; cases t <;> cases less
        | number y => rw [right] at less; cases less
  · cases right : reading b with
    | undefined => cases left : reading a <;> (rw [left, right] at less; cases less)
    | number y => exact Or.inr ⟨y, rfl⟩
    | infinite t =>
      cases t with
      | false => exact Or.inl rfl
      | true =>
        rw [right] at less
        cases left : reading a with
        | undefined => rw [left] at less; cases less
        | infinite s => rw [left] at less; cases s <;> cases less
        | number x => rw [left] at less; cases less

theorem height_of_lt (less : a < b) : (reading a).height ≤ (reading b).height := by
  obtain ⟨left | ⟨x, left⟩, right⟩ := readings_of_lt less
  · rw [left]
    exact bot_le
  · rcases right with right | ⟨y, right⟩
    · rw [left, right]
      exact Extended.number_le_infinite x
    · rw [left, right]
      exact Extended.height_number_le.mpr ((lt_iff_of_readings left right).mp less).le

theorem zero_le_sub (less : a < b) : (Extended.number 0).height ≤ (reading (b - a)).height := by
  rw [reading_sub]
  obtain ⟨left | ⟨x, left⟩, right | ⟨y, right⟩⟩ := readings_of_lt less
  · rw [left, right]
    exact Extended.number_le_infinite 0
  · rw [left, right]
    exact Extended.number_le_infinite 0
  · rw [left, right]
    exact Extended.number_le_infinite 0
  · have order := (lt_iff_of_readings left right).mp less
    rw [left, right]
    exact Extended.zero_le_stored (by linarith)

theorem le_iff_height (finite : a.isFinite = true) :
    a ≤ b ↔ (reading a).height ≤ (reading b).height := by
  have left := reading_worth finite
  constructor
  · intro le
    cases right : reading b with
    | undefined => rw [le_iff_compare, left, right] at le; cases le
    | infinite t =>
      cases t with
      | true => rw [le_iff_compare, left, right] at le; cases le
      | false =>
        rw [left]
        exact Extended.number_le_infinite _
    | number y =>
      rw [left]
      exact Extended.height_number_le.mpr ((le_iff_of_readings left right).mp le)
  · intro high
    rw [left] at high
    rcases Extended.of_number_le high with ⟨y, right, le⟩ | right
    · exact (le_iff_of_readings left right).mpr le
    · rw [le_iff_compare, left, right]
      rfl

theorem le_infinite (infinite : reading b = .infinite false) (number : reading a ≠ .undefined) :
    a ≤ b := by
  rw [le_iff_compare, infinite]
  cases left : reading a with
  | undefined => exact absurd left number
  | infinite s => cases s <;> rfl
  | number x => rfl

theorem number_of_le (le : a ≤ b) : reading a ≠ .undefined ∧ reading b ≠ .undefined := by
  rw [le_iff_compare] at le
  constructor
  · intro none
    rw [none] at le
    cases le
  · intro none
    rw [none] at le
    cases left : reading a <;> (rw [left] at le; cases le)

theorem finite_between {x : Float} (left : a.isFinite = true) (right : b.isFinite = true)
    (after : a ≤ x) (before : x ≤ b) : x.isFinite = true := by
  rw [le_iff_height left, reading_worth left] at after
  rcases Extended.of_number_le after with ⟨y, value, _⟩ | value
  · exact (finite_of_reading value).1
  · rw [le_iff_compare, value, reading_worth right] at before
    cases before

theorem height_le_add (nonneg : (Extended.number 0).height ≤ (reading b).height) :
    (reading a).height ≤ (reading (a + b)).height := by
  rw [reading_add]
  cases left : reading a with
  | undefined => exact bot_le
  | infinite s =>
    cases s with
    | true => exact bot_le
    | false =>
      rcases Extended.of_number_le nonneg with ⟨y, right, _⟩ | right
      · rw [right]
        exact le_rfl
      · rw [right]
        exact le_rfl
  | number x =>
    obtain ⟨rep, within⟩ := reading_number left
    rcases Extended.of_number_le nonneg with ⟨y, right, positive⟩ | right
    · rw [right]
      exact Extended.number_le_stored rep within (by linarith)
    · rw [right]
      exact Extended.number_le_infinite x

end
end CurveSketch
