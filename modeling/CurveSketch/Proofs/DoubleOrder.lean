import CurveSketch.Proofs.Doubles
import Mathlib.Order.Compare

/- The order of doubles is the order of what they stand for. -/
namespace CurveSketch
open Float.Model Float.Model.UnpackedFloat

def Extended.compare : Extended → Extended → Option Ordering
  | .undefined, _ => none
  | _, .undefined => none
  | .infinite s, .infinite t => some (if s = t then .eq else if s then .lt else .gt)
  | .infinite s, .number _ => some (if s then .lt else .gt)
  | .number _, .infinite t => some (if t then .gt else .lt)
  | .number x, .number y => some (cmp x y)

theorem magnitude_below {m n : ℕ} {e d : ℤ} (digits : m < 2 ^ 53) (full : 2 ^ 52 ≤ n)
    (finer : e < d) : (m : ℚ) * 2 ^ e < n * 2 ^ d := by
  have digits' : (m : ℚ) < 2 ^ 53 := by exact_mod_cast digits
  have full' : (2 : ℚ) ^ 52 ≤ n := by exact_mod_cast full
  have coarse : (2 : ℚ) ^ (e + 1) ≤ 2 ^ d := power_le (by omega)
  rw [power_add] at coarse
  calc (m : ℚ) * 2 ^ e < 2 ^ 53 * 2 ^ e := mul_lt_mul_of_pos_right digits' (power_pos e)
    _ = 2 ^ 52 * (2 ^ e * 2 ^ (1 : ℤ)) := by ring
    _ ≤ 2 ^ 52 * 2 ^ d := mul_le_mul_of_nonneg_left coarse (by norm_num)
    _ ≤ n * 2 ^ d := mul_le_mul_of_nonneg_right full' (power_pos d).le

theorem magnitude_compare {s t : Sign} {m n : ℕ} {e d : ℤ} {positive : 0 < m} {positive' : 0 < n}
    (left : Canonical (.finite s m e positive)) (right : Canonical (.finite t n d positive')) :
    (compare e d).then (compare m n) = cmp ((m : ℚ) * 2 ^ e) (n * 2 ^ d) := by
  obtain ⟨digits, least, full⟩ := left
  obtain ⟨digits', least', full'⟩ := right
  rcases lt_trichotomy e d with finer | same | coarser
  · rw [Int.compare_eq_lt.mpr finer,
      (cmp_eq_lt_iff _ _).mpr (magnitude_below digits (full'.resolve_right (by omega)) finer)]
    rfl
  · subst same
    rw [Int.compare_eq_eq.mpr rfl, Ordering.then]
    have positiveE := power_pos e
    rcases lt_trichotomy m n with less | same | more
    · have less' : (m : ℚ) < n := by exact_mod_cast less
      rw [Nat.compare_eq_lt.mpr less,
        (cmp_eq_lt_iff _ _).mpr (mul_lt_mul_of_pos_right less' positiveE)]
    · rw [same, Nat.compare_eq_eq.mpr rfl, cmp_self_eq_eq]
    · have more' : (n : ℚ) < m := by exact_mod_cast more
      rw [Nat.compare_eq_gt.mpr more,
        (cmp_eq_gt_iff _ _).mpr (mul_lt_mul_of_pos_right more' positiveE)]
  · rw [Int.compare_eq_gt.mpr coarser,
      (cmp_eq_gt_iff _ _).mpr (magnitude_below digits' (full.resolve_right (by omega)) coarser)]
    rfl

theorem compare_value {u v : UnpackedFloat} (left : Canonical u) (right : Canonical v) :
    u.compare v = (Extended.ofUnpacked u).compare (.ofUnpacked v) := by
  cases u with
  | notANumber => cases v <;> rfl
  | infinity s =>
    cases v with
    | notANumber => cases s <;> rfl
    | infinity t => cases s <;> cases t <;> rfl
    | zero t => cases s <;> rfl
    | finite t n d positive' => cases s <;> rfl
  | zero s =>
    cases v with
    | notANumber => rfl
    | infinity t => cases t <;> rfl
    | zero t => exact congrArg some (cmp_self_eq_eq (0 : ℚ)).symm
    | finite t n d positive' =>
      have value := mantissa_value d positive'
      cases t with
      | negative => exact congrArg some ((cmp_eq_gt_iff _ _).mpr (neg_lt_zero.mpr value)).symm
      | positive => exact congrArg some ((cmp_eq_lt_iff _ _).mpr value).symm
  | finite s m e positive =>
    have value := mantissa_value e positive
    cases v with
    | notANumber => rfl
    | infinity t => cases s <;> cases t <;> rfl
    | zero t =>
      cases s with
      | negative => exact congrArg some ((cmp_eq_lt_iff _ _).mpr (neg_lt_zero.mpr value)).symm
      | positive => exact congrArg some ((cmp_eq_gt_iff _ _).mpr value).symm
    | finite t n d positive' =>
      have value' := mantissa_value d positive'
      have ordered := magnitude_compare left right
      cases s with
      | negative =>
        cases t with
        | negative =>
          change some ((compare e d).then (compare m n)).swap =
            some (cmp (-((m : ℚ) * 2 ^ e)) (-((n : ℚ) * 2 ^ d)))
          rw [ordered, cmp_swap]
          congr 1
          rcases lt_trichotomy ((m : ℚ) * 2 ^ e) (n * 2 ^ d) with less | same | more
          · rw [(cmp_eq_gt_iff _ _).mpr less, (cmp_eq_gt_iff _ _).mpr (neg_lt_neg less)]
          · rw [same, cmp_self_eq_eq, cmp_self_eq_eq]
          · rw [(cmp_eq_lt_iff _ _).mpr more, (cmp_eq_lt_iff _ _).mpr (neg_lt_neg more)]
        | positive =>
          exact congrArg some ((cmp_eq_lt_iff _ _).mpr ((neg_lt_zero.mpr value).trans value')).symm
      | positive =>
        cases t with
        | negative =>
          exact congrArg some ((cmp_eq_gt_iff _ _).mpr ((neg_lt_zero.mpr value').trans value)).symm
        | positive => exact congrArg some ordered

theorem compare_reading (a b : Float) :
    a.toModel.unpack.compare b.toModel.unpack = (reading a).compare (reading b) :=
  compare_value (proper_unpacked a).canonical (proper_unpacked b).canonical

variable {a b : Float} {x y : ℚ}

theorem le_iff_of_readings (left : reading a = .number x) (right : reading b = .number y) :
    a ≤ b ↔ x ≤ y := by
  rw [float_le_compare, compare_reading, left, right, Extended.compare, Option.any_some]
  rcases lt_trichotomy x y with less | same | more
  · rw [(cmp_eq_lt_iff _ _).mpr less]
    exact ⟨fun _ => less.le, fun _ => rfl⟩
  · rw [same, cmp_self_eq_eq]
    exact ⟨fun _ => le_refl _, fun _ => rfl⟩
  · rw [(cmp_eq_gt_iff _ _).mpr more]
    exact ⟨nofun, fun le => absurd le (not_le.mpr more)⟩

theorem lt_iff_of_readings (left : reading a = .number x) (right : reading b = .number y) :
    a < b ↔ x < y := by
  rw [float_lt_compare, compare_reading, left, right, Extended.compare, Option.some_inj]
  exact cmp_eq_lt_iff x y

theorem isNaN_iff_reading (a : Float) : a.isNaN = true ↔ reading a = .undefined := by
  change UnpackedFloat.isNaN a.toModel.unpack = true ↔ Extended.ofUnpacked a.toModel.unpack = _
  cases a.toModel.unpack with
  | notANumber => exact ⟨fun _ => rfl, fun _ => rfl⟩
  | infinity s => cases s <;> exact ⟨nofun, nofun⟩
  | zero s => exact ⟨nofun, nofun⟩
  | finite s m e positive => exact ⟨nofun, nofun⟩

theorem not_nan_iff (a : Float) : a.isNaN = false ↔ reading a ≠ .undefined := by
  rw [← Bool.not_eq_true, isNaN_iff_reading]

theorem isFinite_iff_reading (a : Float) : a.isFinite = true ↔ ∃ x, reading a = .number x := by
  change UnpackedFloat.isFinite a.toModel.unpack = true ↔
    ∃ x, Extended.ofUnpacked a.toModel.unpack = .number x
  cases a.toModel.unpack with
  | notANumber => exact ⟨nofun, nofun⟩
  | infinity s => cases s <;> exact ⟨nofun, nofun⟩
  | zero s => exact ⟨fun _ => ⟨0, rfl⟩, fun _ => rfl⟩
  | finite s m e positive => exact ⟨fun _ => ⟨_, rfl⟩, fun _ => rfl⟩

end CurveSketch
