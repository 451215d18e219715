import CurveSketch.Proofs.Interpolation
import CurveSketch.Stroke

/- Scales in other units. An increasing affine map of the ticks carries every cell, every sample
   and every rule of a scale along, whatever the number of ticks and the position. -/
namespace CurveSketch
variable {α β : Type}

def Tick.map (g : α → β) (t : Tick α) : Tick β := ⟨g t.value, t.position⟩

def Segment.map (g : α → β) (seg : Segment α) : Segment β := ⟨seg.start.map g, seg.stop.map g⟩

def Scale.map (g : α → β) (s : Scale α) : Scale β :=
  ⟨s.first.map g, s.second.map g, s.rest.map (·.map g)⟩

def Cell.map (g : α → β) (c : Cell α) : Cell β := ⟨g c.lower, g c.upper, g c.center⟩

def Rule.map (g : α → β) : Rule α → Rule β
  | .equals y => .equals (g y)
  | .within low high => .within (g low) (g high)
  | .spanning low high innerLow innerHigh =>
    .spanning (g low) (g high) (g innerLow) (g innerHigh)

/-- From one unit to another: larger stays larger, and equal distances stay equal. -/
structure Rescaling where
  factor : ℚ
  shift : ℚ
  positive : 0 < factor

namespace Rescaling

def apply (u : Rescaling) (v : ℚ) : ℚ := u.factor * v + u.shift

def inverse (u : Rescaling) : Rescaling :=
  ⟨u.factor⁻¹, -(u.factor⁻¹ * u.shift), inv_pos.mpr u.positive⟩

variable (u : Rescaling) (a b : ℚ)

theorem inverse_apply : u.inverse.apply (u.apply a) = a := by
  have nonzero : u.factor ≠ 0 := u.positive.ne'
  simp only [apply, inverse]
  field_simp
  ring

theorem apply_sub : u.apply a - u.apply b = u.factor * (a - b) := by
  simp only [apply]
  ring

@[simp] theorem apply_lt_iff : u.apply a < u.apply b ↔ a < b := by
  rw [← sub_pos, apply_sub, mul_pos_iff_of_pos_left u.positive, sub_pos]

@[simp] theorem apply_le_iff : u.apply a ≤ u.apply b ↔ a ≤ b := by
  rw [← not_lt, apply_lt_iff, not_lt]

@[simp] theorem apply_beq : (u.apply a == u.apply b) = (a == b) := by
  have injective : u.apply a = u.apply b ↔ a = b := by
    constructor
    · intro same
      rw [← u.inverse_apply a, same, u.inverse_apply]
    · intro same
      rw [same]
  rw [Bool.eq_iff_iff, beq_iff_eq, beq_iff_eq, injective]

end Rescaling

section
variable (u : Rescaling)

namespace Segment
variable (g : Segment ℚ)

theorem step_map : (g.map u.apply).step = u.factor * g.step := by
  change (u.apply g.stop.value - u.apply g.start.value) / _ = u.factor * _
  rw [Rescaling.apply_sub, mul_div_assoc]
  rfl

theorem value_map (i : ℕ) : (g.map u.apply).value i = u.apply (g.value i) := by
  rw [value_rat, value_rat, step_map]
  simp only [map, Tick.map, Rescaling.apply]
  ring

theorem cell_map (i : ℕ) : (g.map u.apply).cell i = (g.cell i).map u.apply := by
  have reach : half (Scalar.magnitude (g.map u.apply).step) =
      u.factor * half (Scalar.magnitude g.step) := by
    rw [step_map, rat_magnitude, rat_magnitude, abs_mul, abs_of_pos u.positive]
    exact mul_div_assoc _ _ _
  simp only [cell, Cell.around, Cell.map, reach, value_map, Rescaling.apply, Cell.mk.injEq,
    and_true]
  constructor <;> ring

end Segment

theorem Cell.midpoints_map (c : Cell ℚ) (count : ℕ) :
    (c.map u.apply).midpoints count = (c.midpoints count).map u.apply := by
  have width : (c.map u.apply).width = u.factor * c.width := u.apply_sub c.upper c.lower
  have reach : half ((c.map u.apply).width / (count : ℚ)) =
      u.factor * half (c.width / (count : ℚ)) := by
    rw [width, mul_div_assoc]
    exact mul_div_assoc _ _ _
  unfold midpoints
  split
  · rfl
  · rw [List.map_map]
    refine List.map_congr_left fun k _ => ?_
    simp only [reach, Function.comp_apply]
    simp only [map, Rescaling.apply]
    ring

namespace Scale

theorem bracket_map (g : α → β) (a b : Tick α) (rest : List (Tick α)) (i : ℕ) :
    bracket (a.map g) (b.map g) (rest.map (·.map g)) i = (bracket a b rest i).map g := by
  induction rest generalizing a b with
  | nil => rfl
  | cons c rest ih =>
    simp only [List.map_cons, bracket, ih]
    split <;> rename_i right <;> simp only [Tick.map] at right <;> simp [right, Segment.map]

theorem last_map (g : α → β) (s : Scale α) : (s.map g).last = s.last.map g := by
  simp only [last, map, List.getLastD_eq_getLast?, List.getLast?_map]
  cases s.rest.getLast? <;> rfl

variable (s : Scale ℚ)

theorem cell_map (i : ℕ) : (s.map u.apply).cell i = (s.cell i).map u.apply := by
  rw [cell, cell, ← Segment.cell_map]
  exact congrArg (Segment.cell · i) (bracket_map u.apply s.first s.second s.rest i)

theorem domain_map :
    (s.map u.apply).domain = (u.apply s.domain.1, u.apply s.domain.2) := by
  simp only [domain, cell_map, last_map]
  rfl

theorem samples_map (count i : ℕ) :
    (s.map u.apply).samples count i = (s.samples count i).map u.apply := by
  simp only [samples, cell_map, domain_map, Cell.midpoints_map, List.filter_map]
  congr 1
  refine List.filter_congr fun x _ => ?_
  simp only [Function.comp_apply, Rescaling.apply_le_iff]

end Scale

theorem Stroke.rule_map (down : Scale ℚ) (stroke : Stroke) :
    stroke.rule (down.map u.apply) = (stroke.rule down).map u.apply := by
  cases stroke with
  | point row => simp [rule, Rule.map, Scale.cell_map, Cell.map]
  | band run => simp [rule, outer, Rule.map, Scale.cell_map, Cell.map]
  | line run =>
    simp only [rule, outer, Scale.cell_map]
    split <;> rfl

end
end CurveSketch
