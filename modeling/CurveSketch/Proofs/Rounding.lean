import Mathlib.Algebra.Order.Archimedean.Basic
import Mathlib.Algebra.Order.Floor.Ring
import Mathlib.Data.Int.Log
import Mathlib.Data.Rat.Floor
import Mathlib.Tactic.FieldSimp
import Mathlib.Tactic.Linarith
import Mathlib.Tactic.NormNum
import Mathlib.Tactic.Positivity
import Mathlib.Tactic.Ring

/- Rounding to 53 binary digits, to nearest and to even at ties. The exponent is bounded below, so
   tiny numbers lose digits, and unbounded above: overflow is no matter of rounding. -/
namespace CurveSketch

/-- The nearest integer, the even one of two that are equally near. -/
def nearestInt (x : ℚ) : ℤ :=
  if x - ⌊x⌋ < 1 / 2 then ⌊x⌋
  else if 1 / 2 < x - ⌊x⌋ then ⌊x⌋ + 1
  else ⌊x⌋ + ⌊x⌋ % 2

theorem nearestInt_error (x : ℚ) : |(nearestInt x : ℚ) - x| ≤ 1 / 2 := by
  have below := Int.floor_le x
  have above := Int.lt_floor_add_one x
  have parity : (0 : ℚ) ≤ (⌊x⌋ % 2 : ℤ) ∧ ((⌊x⌋ % 2 : ℤ) : ℚ) ≤ 1 := by
    constructor
    · exact_mod_cast Int.emod_nonneg ⌊x⌋ (by norm_num)
    · exact_mod_cast (by omega : ⌊x⌋ % 2 ≤ 1)
  unfold nearestInt
  rw [abs_le]
  split_ifs <;> push_cast <;> constructor <;> linarith [parity.1, parity.2]

theorem nearestInt_int (k : ℤ) : nearestInt (k : ℚ) = k := by
  simp [nearestInt]

theorem nearestInt_nearest (x : ℚ) (k : ℤ) : |(nearestInt x : ℚ) - x| ≤ |(k : ℚ) - x| := by
  by_cases same : nearestInt x = k
  · rw [same]
  · have apart : (1 : ℤ) ≤ |nearestInt x - k| := Int.one_le_abs (sub_ne_zero.mpr same)
    have apart' : (1 : ℚ) ≤ |(nearestInt x : ℚ) - k| := by exact_mod_cast apart
    have near := nearestInt_error x
    have triangle := abs_sub_le (nearestInt x : ℚ) x k
    rw [abs_sub_comm x (k : ℚ)] at triangle
    linarith

theorem nearestInt_neg (x : ℚ) : nearestInt (-x) = -nearestInt x := by
  by_cases whole : x = ⌊x⌋
  · rw [whole, nearestInt_int, ← Int.cast_neg, nearestInt_int]
  · have below := lt_of_le_of_ne (Int.floor_le x) (Ne.symm whole)
    have above := Int.lt_floor_add_one x
    have floor : ⌊-x⌋ = -⌊x⌋ - 1 := by
      rw [Int.floor_eq_iff]
      push_cast
      constructor <;> linarith
    unfold nearestInt
    rw [floor]
    push_cast
    split_ifs <;> first | omega | (exfalso; linarith)

theorem nearestInt_half (k : ℤ) : nearestInt ((k : ℚ) + 1 / 2) = k + k % 2 := by
  have floor : ⌊(k : ℚ) + 1 / 2⌋ = k := by
    rw [Int.floor_eq_iff]
    constructor <;> linarith
  have rest : (k : ℚ) + 1 / 2 - k = 1 / 2 := by ring
  unfold nearestInt
  rw [floor, rest, if_neg (lt_irrefl _), if_neg (lt_irrefl _)]

theorem nearestInt_le {x : ℚ} {m : ℤ} (bound : |x| ≤ m) : |nearestInt x| ≤ m := by
  have near := abs_le.mp (nearestInt_error x)
  have limits := abs_le.mp bound
  have upper : (nearestInt x : ℚ) < m + 1 := by linarith [near.2, limits.2]
  have lower : -((m : ℚ) + 1) < nearestInt x := by linarith [near.1, limits.1]
  have upper' : nearestInt x < m + 1 := by exact_mod_cast upper
  have lower' : -(m + 1) < nearestInt x := by exact_mod_cast lower
  rw [abs_le]
  omega

def lastDigit (x : ℚ) : ℤ := max (Int.log 2 |x| - 52) (-1074)

def rounded (x : ℚ) : ℚ := (nearestInt (x / 2 ^ lastDigit x) : ℚ) * 2 ^ lastDigit x

/-- The numbers that keep their value. -/
def Representable (x : ℚ) : Prop :=
  ∃ m e : ℤ, |m| ≤ 2 ^ 53 ∧ -1074 ≤ e ∧ x = m * 2 ^ e

theorem power_pos (e : ℤ) : (0 : ℚ) < 2 ^ e := zpow_pos two_pos e

theorem power_add (e k : ℤ) : (2 : ℚ) ^ (e + k) = 2 ^ e * 2 ^ k := zpow_add₀ two_ne_zero e k

theorem power_halved (e : ℤ) : (2 : ℚ) ^ e = 2 ^ (e - 1) * 2 := by
  rw [zpow_sub_one₀ two_ne_zero]
  ring

theorem power_le {e f : ℤ} (le : e ≤ f) : (2 : ℚ) ^ e ≤ 2 ^ f :=
  zpow_le_zpow_right₀ (by norm_num) le

theorem grid_coarse {e f : ℤ} (le : e ≤ f) (m : ℤ) :
    ∃ k : ℤ, (m : ℚ) * 2 ^ f = k * 2 ^ e := by
  refine ⟨m * 2 ^ (f - e).toNat, ?_⟩
  have exponent : f = ((f - e).toNat : ℤ) + e := by omega
  conv_lhs => rw [exponent, power_add, zpow_natCast]
  push_cast
  ring

theorem lastDigit_min (x : ℚ) : -1074 ≤ lastDigit x := le_max_right _ _

theorem lastDigit_upper (x : ℚ) : |x| < 2 ^ 53 * 2 ^ lastDigit x := by
  have bound := Int.lt_zpow_succ_log_self (R := ℚ) one_lt_two |x|
  have exponent : Int.log 2 |x| + 1 ≤ lastDigit x + 53 := by
    have left := le_max_left (Int.log 2 |x| - 52) (-1074)
    unfold lastDigit
    omega
  calc |x| < 2 ^ (Int.log 2 |x| + 1) := by exact_mod_cast bound
    _ ≤ 2 ^ (lastDigit x + 53) := power_le exponent
    _ = 2 ^ 53 * 2 ^ lastDigit x := by
      rw [power_add, mul_comm]
      norm_num

theorem lastDigit_lower {x : ℚ} (nonzero : x ≠ 0) :
    2 ^ 52 * 2 ^ lastDigit x ≤ |x| ∨ lastDigit x = -1074 := by
  have bound := Int.zpow_log_le_self (R := ℚ) one_lt_two (abs_pos.mpr nonzero)
  rcases max_choice (Int.log 2 |x| - 52) (-1074) with large | small
  · left
    have exponent : Int.log 2 |x| = lastDigit x + 52 := by
      unfold lastDigit
      omega
    rw [exponent] at bound
    push_cast at bound
    rw [power_add] at bound
    calc 2 ^ 52 * 2 ^ lastDigit x = 2 ^ lastDigit x * 2 ^ (52 : ℤ) := by
          rw [mul_comm]
          norm_num
      _ ≤ |x| := bound
  · right
    exact small

/-- The digits of `x` end at exponent `e`, up to the power of two where one digit is carried. -/
structure Ends (e : ℤ) (x : ℚ) : Prop where
  least : -1074 ≤ e
  upper : |x| ≤ 2 ^ 53 * 2 ^ e
  lower : 2 ^ 52 * 2 ^ e ≤ |x| ∨ e = -1074

theorem ends_somewhere (x : ℚ) : ∃ e, Ends e x := by
  by_cases zero : x = 0
  · refine ⟨-1074, le_refl _, ?_, Or.inr rfl⟩
    rw [zero, abs_zero]
    exact mul_nonneg (by norm_num) (power_pos _).le
  · exact ⟨lastDigit x, lastDigit_min x, (lastDigit_upper x).le, lastDigit_lower zero⟩

theorem rounded_zero : rounded 0 = 0 := by
  have whole : nearestInt 0 = 0 := by simpa using nearestInt_int 0
  simp [rounded, whole]

theorem rounded_neg (x : ℚ) : rounded (-x) = -rounded x := by
  have digit : lastDigit (-x) = lastDigit x := by simp [lastDigit]
  rw [rounded, rounded, digit, neg_div, nearestInt_neg]
  push_cast
  ring

theorem grid_nearest (m e : ℤ) :
    (nearestInt ((m : ℚ) * 2 ^ e / 2 ^ e) : ℚ) * 2 ^ e = m * 2 ^ e := by
  rw [mul_div_assoc, div_self (power_pos e).ne', mul_one, nearestInt_int]

theorem rounded_eq {e : ℤ} {x : ℚ} (ends : Ends e x) :
    rounded x = (nearestInt (x / 2 ^ e) : ℚ) * 2 ^ e := by
  obtain ⟨least, upper, lower⟩ := ends
  by_cases zero : x = 0
  · have whole : nearestInt 0 = 0 := by simpa using nearestInt_int 0
    rw [zero, rounded_zero, zero_div, whole]
    simp
  · have strict := lastDigit_upper x
    have carry : (2 : ℚ) ^ 53 * 2 ^ e = 2 ^ 52 * 2 ^ (e + 1) := by
      rw [power_add]
      ring
    rcases lt_trichotomy (lastDigit x) e with below | same | above
    · exfalso
      have first := lastDigit_min x
      have coarse : (2 : ℚ) ^ (lastDigit x + 1) ≤ 2 ^ e := power_le (by omega)
      rw [power_add] at coarse
      rcases lower with large | minimal
      · linarith
      · omega
    · rw [rounded, same]
    · have next := (lastDigit_lower zero).resolve_right (by omega)
      have coarse : (2 : ℚ) ^ (e + 1) ≤ 2 ^ lastDigit x := power_le (by omega)
      have size : |x| = 2 ^ 53 * 2 ^ e := by
        apply le_antisymm upper
        rw [carry]
        linarith
      have exponent : (2 : ℚ) ^ lastDigit x = 2 ^ (e + 1) := by
        apply le_antisymm _ coarse
        linarith
      have digit : lastDigit x = e + 1 := zpow_right_injective₀ two_pos (by norm_num) exponent
      have ends_ : ∃ s : ℤ, x = s * 2 ^ (e + 1) := by
        rcases abs_choice x with positive | negative
        · exact ⟨2 ^ 52, by push_cast; linarith⟩
        · exact ⟨-2 ^ 52, by push_cast; linarith⟩
      obtain ⟨s, rfl⟩ := ends_
      obtain ⟨k, fine⟩ := grid_coarse (by omega : e ≤ e + 1) s
      rw [rounded, digit, grid_nearest, fine, grid_nearest]

theorem representable_grid {f : ℚ} (rep : Representable f) {e : ℤ}
    (size : 2 ^ 52 * 2 ^ e ≤ |f| ∨ e ≤ -1074) : ∃ k : ℤ, f = k * 2 ^ e := by
  obtain ⟨m, d, digits, least, rfl⟩ := rep
  by_cases fine : e ≤ d
  · exact grid_coarse fine m
  · have large := size.resolve_right (by omega)
    have coarse : (2 : ℚ) ^ (d + 1) ≤ 2 ^ e := power_le (by omega)
    rw [power_add] at coarse
    have digits' : |(m : ℚ)| ≤ 2 ^ 53 := by exact_mod_cast digits
    have positive := power_pos d
    rw [abs_mul, abs_of_pos positive] at large
    have top : |(m : ℚ)| * 2 ^ d ≤ 2 ^ 53 * 2 ^ d := mul_le_mul_of_nonneg_right digits' positive.le
    have exponent : (2 : ℚ) ^ e = 2 ^ (d + 1) := by
      rw [power_add]
      linarith
    have whole : |(m : ℚ)| = 2 ^ 53 := by
      have scaled : 2 ^ 53 * 2 ^ d ≤ |(m : ℚ)| * 2 ^ d := by
        rw [exponent, power_add] at large
        linarith
      exact le_antisymm digits' (le_of_mul_le_mul_right scaled positive)
    rcases abs_choice (m : ℚ) with positive' | negative
    · refine ⟨2 ^ 52, ?_⟩
      rw [exponent, power_add, ← positive', whole]
      push_cast
      ring
    · refine ⟨-2 ^ 52, ?_⟩
      have value : (m : ℚ) = -2 ^ 53 := by linarith
      rw [exponent, power_add, value]
      push_cast
      ring

theorem representable_zero : Representable 0 := ⟨0, 0, by norm_num, by norm_num, by simp⟩

theorem representable_neg {x : ℚ} (rep : Representable x) : Representable (-x) := by
  obtain ⟨m, e, digits, least, rfl⟩ := rep
  exact ⟨-m, e, by rwa [abs_neg], least, by push_cast; ring⟩

theorem representable_of_grid {m e : ℤ} (least : -1074 ≤ e)
    (size : |(m : ℚ) * 2 ^ e| ≤ 2 ^ 53 * 2 ^ e) : Representable (m * 2 ^ e) := by
  have positive := power_pos e
  rw [abs_mul, abs_of_pos positive] at size
  have digits : |(m : ℚ)| ≤ 2 ^ 53 := le_of_mul_le_mul_right size positive
  exact ⟨m, e, by exact_mod_cast digits, least, rfl⟩

theorem rounded_representable (x : ℚ) : Representable (rounded x) := by
  obtain ⟨e, ends⟩ := ends_somewhere x
  rw [rounded_eq ends]
  have positive := power_pos e
  have bound : |x / 2 ^ e| ≤ ((2 ^ 53 : ℤ) : ℚ) := by
    rw [abs_div, abs_of_pos positive, div_le_iff₀ positive]
    exact_mod_cast ends.upper
  exact ⟨nearestInt (x / 2 ^ e), e, nearestInt_le bound, ends.least, rfl⟩

theorem grid_rounded_nearest (x : ℚ) (e k : ℤ) :
    |(nearestInt (x / 2 ^ e) : ℚ) * 2 ^ e - x| ≤ |(k : ℚ) * 2 ^ e - x| := by
  have positive := power_pos e
  have scaled (a : ℚ) : |a * 2 ^ e - x| = |a - x / 2 ^ e| * 2 ^ e := by
    rw [← abs_of_pos positive, ← abs_mul, abs_of_pos positive, sub_mul,
      div_mul_cancel₀ x positive.ne']
  rw [scaled, scaled]
  exact mul_le_mul_of_nonneg_right (nearestInt_nearest (x / 2 ^ e) k) positive.le

theorem rounded_nearest (x : ℚ) {f : ℚ} (rep : Representable f) : |rounded x - x| ≤ |f - x| := by
  obtain ⟨e, ends⟩ := ends_somewhere x
  rw [rounded_eq ends]
  by_cases size : 2 ^ 52 * 2 ^ e ≤ |f| ∨ e ≤ -1074
  · obtain ⟨k, rfl⟩ := representable_grid rep size
    exact grid_rounded_nearest x e k
  · rw [not_or, not_le, not_le] at size
    have large := ends.lower.resolve_right (by omega)
    have far : |x| - |f| ≤ |f - x| := by
      rw [abs_sub_comm]
      exact abs_sub_abs_le_abs_sub x f
    rcases abs_choice x with positive | negative
    · have closer := grid_rounded_nearest x e (2 ^ 52)
      rw [Int.cast_pow, Int.cast_ofNat] at closer
      rw [abs_of_nonpos (by linarith : (2 : ℚ) ^ 52 * 2 ^ e - x ≤ 0)] at closer
      linarith [size.1]
    · have closer := grid_rounded_nearest x e (-2 ^ 52)
      rw [Int.cast_neg, Int.cast_pow, Int.cast_ofNat] at closer
      rw [abs_of_nonneg (by linarith : 0 ≤ -(2 : ℚ) ^ 52 * 2 ^ e - x)] at closer
      linarith [size.1]

theorem rounded_of_representable {x : ℚ} (rep : Representable x) : rounded x = x := by
  have near := rounded_nearest x rep
  rw [sub_self, abs_zero] at near
  linarith [abs_nonpos_iff.mp near]

theorem rounded_mono {x y : ℚ} (le : x ≤ y) : rounded x ≤ rounded y := by
  by_contra crossed
  rw [not_le] at crossed
  have left := sq_le_sq.mpr (rounded_nearest x (rounded_representable y))
  have right := sq_le_sq.mpr (rounded_nearest y (rounded_representable x))
  have apart : 0 < rounded x - rounded y := by linarith
  have above : rounded x + rounded y ≤ 2 * x := by
    by_contra other
    nlinarith
  have below : 2 * y ≤ rounded x + rounded y := by
    by_contra other
    nlinarith
  have same : x = y := by linarith
  rw [same] at crossed
  exact lt_irrefl _ crossed

theorem rounded_error {e : ℤ} {x : ℚ} (least : -1074 ≤ e) (upper : |x| ≤ 2 ^ 53 * 2 ^ e) :
    |rounded x - x| ≤ 2 ^ e / 2 := by
  have positive := power_pos e
  have bound : |x / 2 ^ e| ≤ ((2 ^ 53 : ℤ) : ℚ) := by
    rw [abs_div, abs_of_pos positive, div_le_iff₀ positive]
    exact_mod_cast upper
  have rep : Representable ((nearestInt (x / 2 ^ e) : ℚ) * 2 ^ e) :=
    ⟨nearestInt (x / 2 ^ e), e, nearestInt_le bound, least, rfl⟩
  refine (rounded_nearest x rep).trans ?_
  have near := nearestInt_error (x / 2 ^ e)
  have scaled : (nearestInt (x / 2 ^ e) : ℚ) * 2 ^ e - x =
      ((nearestInt (x / 2 ^ e) : ℚ) - x / 2 ^ e) * 2 ^ e := by
    rw [sub_mul, div_mul_cancel₀ x positive.ne']
  rw [scaled, abs_mul, abs_of_pos positive]
  calc |(nearestInt (x / 2 ^ e) : ℚ) - x / 2 ^ e| * 2 ^ e ≤ 1 / 2 * 2 ^ e :=
        mul_le_mul_of_nonneg_right near positive.le
    _ = 2 ^ e / 2 := by ring

end CurveSketch
