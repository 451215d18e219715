import CurveSketch.Proofs.DoubleRounding
import CurveSketch.Scalar

/- Doubles as extended numbers: an operation on doubles is the exact one, rounded and bounded. -/
namespace CurveSketch
open Float.Model Float.Model.UnpackedFloat

theorem float_beq_compare (a b : Float) :
    (a == b) = (a.toModel.unpack.compare b.toModel.unpack == some .eq) := rfl

theorem float_le_compare (a b : Float) :
    a ≤ b ↔ ((a.toModel.unpack.compare b.toModel.unpack).any (·.isLE)) = true := by
  change decide (((a.toModel.unpack.compare b.toModel.unpack).any (·.isLE)) = true) = true ↔ _
  exact decide_eq_true_iff

theorem float_lt_compare (a b : Float) :
    a < b ↔ a.toModel.unpack.compare b.toModel.unpack = some .lt := by
  change decide ((a.toModel.unpack.compare b.toModel.unpack == some .lt) = true) = true ↔ _
  rw [decide_eq_true_iff]
  cases a.toModel.unpack.compare b.toModel.unpack with
  | none => decide
  | some order => cases order <;> decide

theorem nan_compare {y : Float} (nan : y.isNaN = true) (a : Float) :
    y.toModel.unpack.compare a.toModel.unpack = none ∧
      a.toModel.unpack.compare y.toModel.unpack = none := by
  have shape : y.toModel.unpack = .notANumber := by
    unfold Float.isNaN Float.Model.isNaN UnpackedFloat.isNaN at nan
    split at nan
    · assumption
    · cases nan
  rw [shape]
  cases a.toModel.unpack <;> exact ⟨rfl, rfl⟩

theorem nan_unordered {y : Float} (nan : y.isNaN = true) (a : Float) :
    (y == a) = false ∧ ¬ a ≤ y ∧ ¬ y ≤ a ∧ ¬ a < y ∧ ¬ y < a := by
  obtain ⟨left, right⟩ := nan_compare nan a
  rw [float_beq_compare, float_le_compare, float_le_compare, float_lt_compare, float_lt_compare,
    left, right]
  decide

/-- What the double stands for. -/
def reading (a : Float) : Extended := .ofUnpacked a.toModel.unpack

/-- The exact result `x` as a double holds it. -/
def stored (x : ℚ) : Extended := (Extended.number (rounded x)).bounded

structure Proper (u : UnpackedFloat) : Prop where
  canonical : Canonical u
  within : (Extended.ofUnpacked u).bounded = .ofUnpacked u

theorem proper_unpacked (a : Float) : Proper a.toModel.unpack := by
  obtain ⟨canonical, within⟩ := unpack_canonical a.toModel.toBits.toBitVec
  exact ⟨canonical, within⟩

theorem reading_packed {u : UnpackedFloat} (canonical : Canonical u) :
    reading (.ofModel (.pack u)) = (Extended.ofUnpacked u).bounded :=
  unpack_pack_value canonical

theorem signed_rounded (s : Sign) (x : ℚ) : signed s (rounded x) = rounded (signed s x) := by
  cases s with
  | negative => exact (rounded_neg x).symm
  | positive => rfl

theorem representable_signed (s : Sign) {m : ℕ} {e : ℤ} (digits : m < 2 ^ 53)
    (least : -1074 ≤ e) : Representable (signed s (m * 2 ^ e)) := by
  have whole : Representable ((m : ℚ) * 2 ^ e) :=
    ⟨m, e, by rw [abs_of_nonneg (Int.natCast_nonneg m)]; omega, least, by simp⟩
  cases s with
  | negative => exact representable_neg whole
  | positive => exact whole

theorem proper_number {u : UnpackedFloat} (proper : Proper u) {x : ℚ}
    (value : Extended.ofUnpacked u = .number x) :
    Representable x ∧ |x| < 2 ^ (1024 : ℤ) := by
  obtain ⟨canonical, within⟩ := proper
  constructor
  · cases u with
    | notANumber => cases value
    | infinity s => cases s <;> cases value
    | zero s =>
      cases value
      exact representable_zero
    | finite s m e positive =>
      obtain ⟨digits, least, _⟩ := canonical
      cases value
      exact representable_signed s digits least
  · rw [value, Extended.bounded] at within
    by_contra large
    rw [if_neg large] at within
    cases within

theorem reading_number {a : Float} {x : ℚ} (value : reading a = .number x) :
    Representable x ∧ |x| < 2 ^ (1024 : ℤ) := proper_number (proper_unpacked a) value

theorem stored_number {x : ℚ} (rep : Representable x) (within : |x| < 2 ^ (1024 : ℤ)) :
    stored x = .number x := by
  rw [stored, rounded_of_representable rep, Extended.bounded, if_pos within]

theorem stored_zero : stored 0 = .number 0 :=
  stored_number representable_zero (by rw [abs_zero]; exact power_pos 1024)

namespace Extended

def neg : Extended → Extended
  | .undefined => .undefined
  | .infinite negative => .infinite (!negative)
  | .number x => .number (-x)

def size : Extended → Extended
  | .undefined => .undefined
  | .infinite _ => .infinite false
  | .number x => .number |x|

def add : Extended → Extended → Extended
  | .undefined, _ => .undefined
  | _, .undefined => .undefined
  | .infinite s, .infinite t => if s = t then .infinite s else .undefined
  | .infinite s, .number _ => .infinite s
  | .number _, .infinite s => .infinite s
  | .number x, .number y => stored (x + y)

def mul : Extended → Extended → Extended
  | .undefined, _ => .undefined
  | _, .undefined => .undefined
  | .infinite s, .infinite t => .infinite (s != t)
  | .infinite s, .number x => if x = 0 then .undefined else .infinite (s != decide (x < 0))
  | .number x, .infinite s => if x = 0 then .undefined else .infinite (decide (x < 0) != s)
  | .number x, .number y => stored (x * y)

def divide (a : Extended) (y : ℚ) : Extended :=
  match a with
  | .undefined => .undefined
  | .infinite s => .infinite (s != decide (y < 0))
  | .number x => stored (x / y)

end Extended

theorem aligned_value (s : Sign) (m : ℕ) {e t : ℤ} (below : t ≤ e) :
    ((s.apply ((decreaseExponent m e t).1 : ℤ) : ℤ) : ℚ) * 2 ^ t = signed s (m * 2 ^ e) := by
  have value := decreased_value m e t
  have exponent : (decreaseExponent m e t).2 = t := by
    change e - ((e - t).toNat : ℤ) = t
    omega
  rw [exponent] at value
  rw [← value]
  cases s with
  | negative => simp [Sign.apply, signed]
  | positive => simp [Sign.apply, signed]

theorem add_value {u v : UnpackedFloat} (left : Proper u) (right : Proper v) :
    Canonical (UnpackedFloat.add Format.binary64 u v) ∧
      (Extended.ofUnpacked (UnpackedFloat.add Format.binary64 u v)).bounded =
        (Extended.ofUnpacked u).add (.ofUnpacked v) := by
  have same {w : UnpackedFloat} (proper : Proper w) {x : ℚ}
      (value : Extended.ofUnpacked w = .number x) : (Extended.ofUnpacked w).bounded = stored x := by
    obtain ⟨rep, within⟩ := proper_number proper value
    rw [proper.within, value, stored_number rep within]
  cases u with
  | notANumber => cases v <;> exact ⟨trivial, rfl⟩
  | infinity s =>
    cases v with
    | notANumber => cases s <;> exact ⟨trivial, rfl⟩
    | infinity t => cases s <;> cases t <;> exact ⟨trivial, rfl⟩
    | zero t => cases s <;> exact ⟨trivial, rfl⟩
    | finite t m e positive => cases s <;> exact ⟨trivial, rfl⟩
  | zero s =>
    cases v with
    | notANumber => exact ⟨trivial, rfl⟩
    | infinity t => cases t <;> exact ⟨trivial, rfl⟩
    | zero t =>
      have sum : (Extended.ofUnpacked (.zero s)).add (.ofUnpacked (.zero t)) = .number 0 := by
        have none : (0 : ℚ) + 0 = 0 := add_zero 0
        change stored (0 + 0) = .number 0
        rw [none]
        exact stored_zero
      rw [sum]
      cases s <;> cases t <;> exact ⟨trivial, zero_bounded _⟩
    | finite t m e positive =>
      refine ⟨right.canonical, ?_⟩
      change _ = stored (0 + signed t (m * 2 ^ e))
      rw [zero_add]
      exact same right rfl
  | finite s m e positive =>
    cases v with
    | notANumber => exact ⟨trivial, rfl⟩
    | infinity t => cases t <;> exact ⟨trivial, rfl⟩
    | zero t =>
      refine ⟨left.canonical, ?_⟩
      change _ = stored (signed s (m * 2 ^ e) + 0)
      rw [add_zero]
      exact same left rfl
    | finite t n d positive' =>
      obtain ⟨canonical, value⟩ := normalize_value
        (s.apply ((decreaseExponent m e (min e d)).1 : ℤ) +
          t.apply ((decreaseExponent n d (min e d)).1 : ℤ)) (min e d) .positive
      refine ⟨canonical, ?_⟩
      rw [Int.cast_add, add_mul, aligned_value s m (min_le_left e d),
        aligned_value t n (min_le_right e d)] at value
      exact congrArg Extended.bounded value

theorem proper_neg {u : UnpackedFloat} (proper : Proper u) : Proper u.neg := by
  cases u with
  | notANumber => exact ⟨trivial, rfl⟩
  | infinity s => cases s <;> exact ⟨trivial, rfl⟩
  | zero s => exact ⟨trivial, zero_bounded (-s)⟩
  | finite s m e positive =>
    have small := (proper_number proper (unpacked_finite s e positive)).2
    rw [signed_abs] at small
    refine ⟨proper.canonical, ?_⟩
    change (Extended.ofUnpacked (.finite (-s) m e positive)).bounded = _
    rw [unpacked_finite, Extended.bounded, signed_abs, if_pos small]
    rfl

theorem neg_value (u : UnpackedFloat) :
    Extended.ofUnpacked u.neg = (Extended.ofUnpacked u).neg := by
  cases u with
  | notANumber => rfl
  | infinity s => cases s <;> rfl
  | zero s => exact congrArg Extended.number neg_zero.symm
  | finite s m e positive =>
    cases s with
    | negative => exact congrArg Extended.number (neg_neg ((m : ℚ) * 2 ^ e)).symm
    | positive => rfl

theorem sub_eq_add_neg_unpacked (u v : UnpackedFloat) :
    UnpackedFloat.sub Format.binary64 u v = UnpackedFloat.add Format.binary64 u v.neg := by
  cases u with
  | notANumber => cases v <;> rfl
  | infinity s => cases v <;> rfl
  | zero s => cases v <;> rfl
  | finite s m e positive =>
    cases v with
    | notANumber => rfl
    | infinity t => rfl
    | zero t => rfl
    | finite t n d positive' =>
      have apply_neg (k : ℤ) : (-t).apply k = -t.apply k := by
        cases t with
        | negative => exact (neg_neg k).symm
        | positive => rfl
      have sum (k l : ℤ) : k - t.apply l = k + (-t).apply l := by
        rw [apply_neg, sub_eq_add_neg]
      exact congrArg (UnpackedFloat.normalize Format.binary64 · _ _) (sum _ _)

theorem signed_mul (s t : Sign) (x y : ℚ) : signed (s * t) (x * y) = signed s x * signed t y := by
  cases s with
  | negative =>
    cases t with
    | negative => exact (neg_mul_neg x y).symm
    | positive => exact (neg_mul x y).symm
  | positive =>
    cases t with
    | negative => exact (mul_neg x y).symm
    | positive => rfl

theorem signed_div (s t : Sign) (x y : ℚ) : signed (s / t) (x / y) = signed s x / signed t y := by
  cases s with
  | negative =>
    cases t with
    | negative => exact (neg_div_neg_eq x y).symm
    | positive => exact (neg_div y x).symm
  | positive =>
    cases t with
    | negative => exact (div_neg x).symm
    | positive => rfl

def isNegative : Sign → Bool
  | .negative => true
  | .positive => false

theorem isNegative_mul (s t : Sign) : isNegative (s * t) = (isNegative s != isNegative t) := by
  cases s <;> cases t <;> rfl

theorem isNegative_div (s t : Sign) : isNegative (s / t) = (isNegative s != isNegative t) := by
  cases s <;> cases t <;> rfl

theorem isNegative_signed (s : Sign) {x : ℚ} (positive : 0 < x) :
    decide (signed s x < 0) = isNegative s := by
  cases s with
  | negative => simp [signed, positive, isNegative]
  | positive => simp [signed, not_lt.mpr positive.le, isNegative]

theorem signed_nonzero (s : Sign) {x : ℚ} (positive : 0 < x) : signed s x ≠ 0 := by
  cases s with
  | negative => simpa [signed] using positive.ne'
  | positive => exact positive.ne'

theorem unpacked_infinity (s : Sign) :
    Extended.ofUnpacked (.infinity s) = .infinite (isNegative s) := by
  cases s <;> rfl

theorem unpacked_infinity_bounded (s : Sign) :
    (Extended.ofUnpacked (.infinity s)).bounded = .infinite (isNegative s) := by
  cases s <;> rfl

theorem mantissa_value {m : ℕ} (e : ℤ) (positive : 0 < m) : 0 < (m : ℚ) * 2 ^ e := by
  have cast : (0 : ℚ) < m := by exact_mod_cast positive
  exact mul_pos cast (power_pos e)

theorem product_value (s t : Sign) {m n : ℕ} {e d : ℤ} (positive : 0 < m) (positive' : 0 < n)
    (fine : 2 ^ 52 ≤ m * n ∨ e + d ≤ -1074) :
    Canonical (UnpackedFloat.mul Format.binary64 (.finite s m e positive)
        (.finite t n d positive')) ∧
      Extended.ofUnpacked (UnpackedFloat.mul Format.binary64 (.finite s m e positive)
        (.finite t n d positive')) =
        .number (rounded (signed s (m * 2 ^ e) * signed t (n * 2 ^ d))) := by
  obtain ⟨canonical, value⟩ := round_value (s * t) (tracks_exact (m * n)) fine
  have product : ((m * n : ℕ) : ℚ) * 2 ^ (e + d) = m * 2 ^ e * (n * 2 ^ d) := by
    rw [power_add]
    push_cast
    ring
  rw [product, signed_rounded, signed_mul] at value
  exact ⟨canonical, value⟩

theorem mul_value {u v : UnpackedFloat} (left : Canonical u) (right : Canonical v) :
    Canonical (UnpackedFloat.mul Format.binary64 u v) ∧
      (Extended.ofUnpacked (UnpackedFloat.mul Format.binary64 u v)).bounded =
        (Extended.ofUnpacked u).mul (.ofUnpacked v) := by
  cases u with
  | notANumber => cases v <;> exact ⟨trivial, rfl⟩
  | infinity s =>
    rw [unpacked_infinity]
    cases v with
    | notANumber => exact ⟨trivial, rfl⟩
    | infinity t =>
      rw [unpacked_infinity]
      exact ⟨trivial, (unpacked_infinity_bounded _).trans (by rw [isNegative_mul]; rfl)⟩
    | zero t =>
      refine ⟨trivial, ?_⟩
      rw [unpacked_zero, Extended.mul, if_pos rfl]
      rfl
    | finite t n d positive' =>
      have value := mantissa_value d positive'
      refine ⟨trivial, (unpacked_infinity_bounded _).trans ?_⟩
      rw [unpacked_finite, Extended.mul, if_neg (signed_nonzero t value),
        isNegative_signed t value, isNegative_mul]
  | zero s =>
    cases v with
    | notANumber => exact ⟨trivial, rfl⟩
    | infinity t =>
      rw [unpacked_infinity]
      refine ⟨trivial, ?_⟩
      rw [unpacked_zero, Extended.mul, if_pos rfl]
      rfl
    | zero t =>
      refine ⟨trivial, (zero_bounded _).trans ?_⟩
      rw [unpacked_zero, unpacked_zero, Extended.mul, zero_mul, stored_zero]
    | finite t n d positive' =>
      refine ⟨trivial, (zero_bounded _).trans ?_⟩
      rw [unpacked_zero, unpacked_finite, Extended.mul, zero_mul, stored_zero]
  | finite s m e positive =>
    have value := mantissa_value e positive
    cases v with
    | notANumber => exact ⟨trivial, rfl⟩
    | infinity t =>
      refine ⟨trivial, (unpacked_infinity_bounded _).trans ?_⟩
      rw [unpacked_infinity, unpacked_finite, Extended.mul, if_neg (signed_nonzero s value),
        isNegative_signed s value, isNegative_mul]
    | zero t =>
      refine ⟨trivial, (zero_bounded _).trans ?_⟩
      rw [unpacked_finite, unpacked_zero, Extended.mul, mul_zero, stored_zero]
    | finite t n d positive' =>
      have fine : 2 ^ 52 ≤ m * n ∨ e + d ≤ -1074 := by
        rcases left.2.2 with large | minimal
        · exact Or.inl (large.trans (Nat.le_mul_of_pos_right m positive'))
        · rcases right.2.2 with large | minimal'
          · exact Or.inl (large.trans (Nat.le_mul_of_pos_left n positive))
          · right
            omega
      obtain ⟨canonical, value'⟩ := product_value s t positive positive' fine
      exact ⟨canonical, congrArg Extended.bounded value'⟩

theorem quotient_digits {m n : ℕ} {e d : ℤ} (positive : 0 < m) (positive' : 0 < n) {t : ℤ}
    (isMin : t = min (e - d) (Format.binary64.targetExponent
      (totalExponent m e - totalExponent n d))) :
    2 ^ 52 ≤ m <<< (e - d - t).toNat / n ∨ t ≤ -1074 := by
  have exponent : Format.binary64.targetExponent (totalExponent m e - totalExponent n d) =
      max ((m.log2 : ℤ) + e - (n.log2 + d) - 53) (-1074) := by
    have same : ((m.log2 : ℤ) + 1 + e) - ((n.log2 : ℤ) + 1 + d) - 53 =
        (m.log2 : ℤ) + e - (n.log2 + d) - 53 := by ring
    rw [← same]
    rfl
  rw [exponent] at isMin
  by_cases tiny : t ≤ -1074
  · exact Or.inr tiny
  · left
    have digits : 53 + n.log2 ≤ m.log2 + (e - d - t).toNat := by omega
    rw [Nat.shiftLeft_eq, Nat.le_div_iff_mul_le positive']
    calc 2 ^ 52 * n ≤ 2 ^ 52 * 2 ^ (n.log2 + 1) :=
          Nat.mul_le_mul_left _ (log_bounds positive').2.le
      _ = 2 ^ (53 + n.log2) := by rw [← Nat.pow_add]; congr 1; omega
      _ ≤ 2 ^ (m.log2 + (e - d - t).toNat) := Nat.pow_le_pow_right (by norm_num) digits
      _ = 2 ^ m.log2 * 2 ^ (e - d - t).toNat := Nat.pow_add ..
      _ ≤ m * 2 ^ (e - d - t).toNat := Nat.mul_le_mul_right _ (log_bounds positive).1

theorem quotient_value (s t : Sign) {m n : ℕ} {e d : ℤ} (positive : 0 < m) (positive' : 0 < n) :
    Canonical (UnpackedFloat.div Format.binary64 (.finite s m e positive)
        (.finite t n d positive')) ∧
      Extended.ofUnpacked (UnpackedFloat.div Format.binary64 (.finite s m e positive)
        (.finite t n d positive')) =
        .number (rounded (signed s (m * 2 ^ e) / signed t (n * 2 ^ d))) := by
  generalize isMin : min (e - d) (Format.binary64.targetExponent
    (totalExponent m e - totalExponent n d)) = q
  have fine := quotient_digits positive positive' isMin.symm
  obtain ⟨canonical, value⟩ := round_value (s / t)
    (tracks_fraction (m <<< (e - d - q).toNat / n)
      (Nat.mod_lt (m <<< (e - d - q).toNat) positive')) fine
  have shape : UnpackedFloat.div Format.binary64 (.finite s m e positive)
      (.finite t n d positive') = roundWithAccuracy Format.binary64 (s / t)
        (m <<< (e - d - q).toNat / n) q
        (accuracyOfFraction (m <<< (e - d - q).toNat % n) n) := by
    rw [← isMin]
    rfl
  have whole : ((m <<< (e - d - q).toNat / n : ℕ) : ℚ) +
      ((m <<< (e - d - q).toNat % n : ℕ) : ℚ) / n =
      ((m <<< (e - d - q).toNat : ℕ) : ℚ) / n := by
    have cast : (n : ℚ) ≠ 0 := by exact_mod_cast positive'.ne'
    rw [eq_div_iff cast, add_mul, div_mul_cancel₀ _ cast]
    exact_mod_cast Nat.div_add_mod' (m <<< (e - d - q).toNat) n
  have quotient : ((m <<< (e - d - q).toNat : ℕ) : ℚ) / n * 2 ^ q =
      m * 2 ^ e / (n * 2 ^ d) := by
    have exponent : e = ((e - d - q).toNat : ℤ) + q + d := by
      have below : q ≤ e - d := by
        rw [← isMin]
        exact min_le_left _ _
      omega
    have cast : (n : ℚ) ≠ 0 := by exact_mod_cast positive'.ne'
    have power : (2 : ℚ) ^ e = 2 ^ (e - d - q).toNat * 2 ^ q * 2 ^ d := by
      conv_lhs => rw [exponent, power_add, power_add, zpow_natCast]
    rw [Nat.shiftLeft_eq, power]
    push_cast
    have positiveD := (power_pos d).ne'
    field_simp
  rw [whole, quotient, signed_rounded, signed_div] at value
  rw [shape]
  exact ⟨canonical, value⟩

theorem div_value {u v : UnpackedFloat} {y : ℚ} (divisor : Extended.ofUnpacked v = .number y)
    (nonzero : y ≠ 0) :
    Canonical (UnpackedFloat.div Format.binary64 u v) ∧
      (Extended.ofUnpacked (UnpackedFloat.div Format.binary64 u v)).bounded =
        (Extended.ofUnpacked u).divide y := by
  cases v with
  | notANumber => cases divisor
  | infinity t => cases t <;> cases divisor
  | zero t =>
    cases divisor
    exact absurd rfl nonzero
  | finite t n d positive' =>
    cases divisor
    have value' := mantissa_value d positive'
    cases u with
    | notANumber => exact ⟨trivial, rfl⟩
    | infinity s =>
      refine ⟨trivial, (unpacked_infinity_bounded _).trans ?_⟩
      rw [unpacked_infinity, Extended.divide, isNegative_signed t value', isNegative_div]
    | zero s =>
      refine ⟨trivial, (zero_bounded _).trans ?_⟩
      rw [unpacked_zero, Extended.divide, zero_div, stored_zero]
    | finite s m e positive =>
      obtain ⟨canonical, value⟩ := quotient_value s t positive positive'
      exact ⟨canonical, congrArg Extended.bounded value⟩

end CurveSketch
