import CurveSketch.Proofs.Rounding
import Mathlib.Data.Nat.Log

/- The logical model of doubles rounds as the rationals are rounded: shifted mantissas track the
   exact value, and packing keeps what fits. -/
namespace CurveSketch
open Float.Model Float.Model.UnpackedFloat

/-- The mantissa is the whole part of `x`; the two bits place the rest with respect to a half. -/
structure Tracks (em : ExtendedMantissa) (x : ℚ) : Prop where
  whole : (em.mantissa : ℚ) ≤ x
  next : x < em.mantissa + 1
  half : em.roundBit = true ↔ (em.mantissa : ℚ) + 1 / 2 ≤ x
  rest : em.stickyBit = true ↔ x ≠ em.mantissa ∧ x ≠ em.mantissa + 1 / 2

theorem tracks_floor {em : ExtendedMantissa} {x : ℚ} (tracks : Tracks em x) :
    ⌊x⌋ = (em.mantissa : ℤ) := by
  rw [Int.floor_eq_iff]
  exact ⟨by exact_mod_cast tracks.whole, by exact_mod_cast tracks.next⟩

theorem tracks_rounded {em : ExtendedMantissa} {x : ℚ} (tracks : Tracks em x) :
    (em.roundedMantissa : ℤ) = nearestInt x := by
  have floor := tracks_floor tracks
  obtain ⟨whole, next, half, rest⟩ := tracks
  obtain ⟨m, r, s⟩ := em
  simp only at *
  unfold nearestInt
  rw [floor, Int.cast_natCast]
  cases r with
  | false =>
    have low : x < (m : ℚ) + 1 / 2 := by simpa using half
    rw [if_pos (by linarith)]
    cases s <;> rfl
  | true =>
    have high : (m : ℚ) + 1 / 2 ≤ x := by simpa using half
    rw [if_neg (by linarith)]
    cases s with
    | false =>
      have tie : x = (m : ℚ) + 1 / 2 := by
        by_contra other
        have sticky := rest.mpr ⟨by intro same; linarith, other⟩
        simp at sticky
      rw [if_neg (by linarith)]
      simp [ExtendedMantissa.roundedMantissa, ExtendedMantissa.accuracy,
        Accuracy.roundToNearestEven]
    | true =>
      have other := (rest.mp rfl).2
      have above : (m : ℚ) + 1 / 2 < x := lt_of_le_of_ne high (Ne.symm other)
      rw [if_pos (by linarith)]
      simp [ExtendedMantissa.roundedMantissa, ExtendedMantissa.accuracy,
        Accuracy.roundToNearestEven]

theorem tracks_shift_one {em : ExtendedMantissa} {x : ℚ} (tracks : Tracks em x) :
    Tracks em.shiftRightOne (x / 2) := by
  obtain ⟨whole, next, half, rest⟩ := tracks
  obtain ⟨m, r, s⟩ := em
  simp only at *
  have split : (m : ℚ) = ((m / 2 : ℕ) : ℚ) * 2 + ((m % 2 : ℕ) : ℚ) := by
    exact_mod_cast (Nat.div_add_mod' m 2).symm
  have bit : (r || s) = true ↔ x ≠ m := by
    rw [Bool.or_eq_true, half, rest]
    constructor
    · intro either same
      rcases either with high | other
      · linarith
      · exact other.1 same
    · intro apart
      by_cases high : (m : ℚ) + 1 / 2 ≤ x
      · exact Or.inl high
      · exact Or.inr ⟨apart, by intro same; linarith⟩
  have parity : m % 2 = 0 ∨ m % 2 = 1 := by omega
  simp only [ExtendedMantissa.shiftRightOne]
  rcases parity with even | odd
  · rw [even, Nat.cast_zero] at split
    refine ⟨by simp only; linarith, by simp only; linarith, ?_, ?_⟩
    · simp only [even, bne_self_eq_false, Bool.false_eq_true, false_iff, not_le]
      linarith
    · simp only
      rw [bit]
      constructor
      · intro apart
        exact ⟨fun same => apart (by linarith), fun same => by linarith⟩
      · intro apart same
        exact apart.1 (by linarith)
  · rw [odd, Nat.cast_one] at split
    refine ⟨by simp only; linarith, by simp only; linarith, ?_, ?_⟩
    · simp only [odd, show (1 != 0) = true from rfl, true_iff]
      linarith
    · simp only
      rw [bit]
      constructor
      · intro apart
        exact ⟨fun same => by linarith, fun same => apart (by linarith)⟩
      · intro apart same
        exact apart.2 (by linarith)

theorem tracks_shift {em : ExtendedMantissa} {x : ℚ} (tracks : Tracks em x) (k : ℕ) :
    Tracks (em >>> k) (x / 2 ^ k) := by
  induction k with
  | zero =>
    rw [pow_zero, div_one]
    exact tracks
  | succ k ih =>
    rw [pow_succ, ← div_div]
    exact tracks_shift_one ih

theorem tracks_exact (m : ℕ) :
    Tracks (ExtendedMantissa.ofMantissaAndAccuracy m .exact) m := by
  refine ⟨le_refl _, by simp [ExtendedMantissa.ofMantissaAndAccuracy], ?_, ?_⟩
  · simp [ExtendedMantissa.ofMantissaAndAccuracy]
  · simp [ExtendedMantissa.ofMantissaAndAccuracy]

theorem tracks_fraction (m : ℕ) {num den : ℕ} (proper : num < den) :
    Tracks (ExtendedMantissa.ofMantissaAndAccuracy m (accuracyOfFraction num den))
      (m + (num : ℚ) / den) := by
  have positive : (0 : ℚ) < den := by exact_mod_cast (by omega : 0 < den)
  have below : (num : ℚ) / den < 1 := by
    rw [div_lt_one positive]
    exact_mod_cast proper
  have least : 0 ≤ (num : ℚ) / den := by positivity
  unfold accuracyOfFraction
  split
  · rename_i none
    simpa [none] using tracks_exact m
  · rename_i some
    have above : 0 < (num : ℚ) / den := by
      have numerator : (0 : ℚ) < num := by exact_mod_cast (by omega : 0 < num)
      positivity
    have half (c : ℚ) : (num : ℚ) / den = c ↔ (num : ℚ) = c * den := div_eq_iff positive.ne'
    rcases lt_trichotomy (2 * num) den with less | same | more
    · have close : (num : ℚ) / den < 1 / 2 := by
        rw [div_lt_iff₀ positive]
        have cast : (2 : ℚ) * num < den := by exact_mod_cast less
        linarith
      rw [Nat.compare_eq_lt.mpr less]
      refine ⟨?_, ?_, ?_, ?_⟩ <;> simp only [ExtendedMantissa.ofMantissaAndAccuracy]
      · linarith
      · linarith
      · simp only [Bool.false_eq_true, false_iff, not_le]
        linarith
      · simp only [true_iff]
        exact ⟨by linarith, by linarith⟩
    · have tie : (num : ℚ) / den = 1 / 2 := by
        rw [half]
        have cast : (2 : ℚ) * num = den := by exact_mod_cast same
        linarith
      rw [Nat.compare_eq_eq.mpr same, tie]
      refine ⟨?_, ?_, ?_, ?_⟩ <;> simp only [ExtendedMantissa.ofMantissaAndAccuracy]
      · linarith
      · linarith
      · simp
      · simp
    · have far : 1 / 2 < (num : ℚ) / den := by
        rw [lt_div_iff₀ positive]
        have cast : (den : ℚ) < 2 * num := by exact_mod_cast more
        linarith
      rw [Nat.compare_eq_gt.mpr more]
      refine ⟨?_, ?_, ?_, ?_⟩ <;> simp only [ExtendedMantissa.ofMantissaAndAccuracy]
      · linarith
      · linarith
      · simp only [true_iff]
        linarith
      · simp only [true_iff]
        exact ⟨by linarith, by linarith⟩

def signed (s : Sign) (x : ℚ) : ℚ :=
  match s with
  | .negative => -x
  | .positive => x

/-- What a double stands for. -/
inductive Extended where
  | undefined
  | infinite (negative : Bool)
  | number (x : ℚ)

def Extended.ofUnpacked : UnpackedFloat → Extended
  | .notANumber => .undefined
  | .infinity .negative => .infinite true
  | .infinity .positive => .infinite false
  | .zero _ => .number 0
  | .finite s m e _ => .number (signed s (m * 2 ^ e))

theorem unpacked_zero (s : Sign) : Extended.ofUnpacked (.zero s) = .number 0 := rfl

theorem unpacked_finite (s : Sign) {m : ℕ} (e : ℤ) (positive : 0 < m) :
    Extended.ofUnpacked (.finite s m e positive) = .number (signed s (m * 2 ^ e)) := rfl

/-- A mantissa of 53 digits, the first of them zero only where the exponent is the least one. -/
def Canonical : UnpackedFloat → Prop
  | .finite _ m e _ => m < 2 ^ 53 ∧ -1074 ≤ e ∧ (2 ^ 52 ≤ m ∨ e = -1074)
  | _ => True

def target (m : ℕ) (e : ℤ) : ℤ := Format.binary64.targetExponent (totalExponent m e)

theorem target_eq (m : ℕ) (e : ℤ) : target m e = max ((m.log2 : ℤ) + e - 52) (-1074) := by
  have same : (m.log2 : ℤ) + 1 + e - 53 = (m.log2 : ℤ) + e - 52 := by ring
  rw [← same]
  rfl

theorem log_bounds {m : ℕ} (positive : 0 < m) : 2 ^ m.log2 ≤ m ∧ m < 2 ^ (m.log2 + 1) :=
  (Nat.log2_eq_iff positive.ne').mp rfl

theorem log_ge {m k : ℕ} (large : 2 ^ k ≤ m) : k ≤ m.log2 :=
  (Nat.le_log2 (by have := Nat.two_pow_pos k; omega)).mpr large

theorem target_ends {m : ℕ} {e : ℤ} {x : ℚ} (whole : (m : ℚ) ≤ x) (next : x < m + 1)
    (fine : 2 ^ 52 ≤ m ∨ e ≤ -1074) : Ends (target m e) (x * 2 ^ e) ∧ e ≤ target m e := by
  have positive := power_pos e
  have nonneg : 0 ≤ x := le_trans (Nat.cast_nonneg m) whole
  have size : |x * 2 ^ e| = x * 2 ^ e := abs_of_nonneg (mul_nonneg nonneg positive.le)
  rw [target_eq]
  have below : e ≤ max ((m.log2 : ℤ) + e - 52) (-1074) := by
    rcases fine with large | tiny
    · have digits := log_ge large
      omega
    · omega
  have above : |x * 2 ^ e| ≤ 2 ^ 53 * 2 ^ max ((m.log2 : ℤ) + e - 52) (-1074) := by
    rw [size]
    have digits : m + 1 ≤ 2 ^ (m.log2 + 1) := by
      rcases Nat.eq_zero_or_pos m with none | some
      · simp [none]
      · exact (log_bounds some).2
    have digits' : (m : ℚ) + 1 ≤ 2 ^ (m.log2 + 1) := by exact_mod_cast digits
    have exponent : ((m.log2 + 1 : ℕ) : ℤ) + e ≤ 53 + max ((m.log2 : ℤ) + e - 52) (-1074) := by
      push_cast
      omega
    calc x * 2 ^ e ≤ 2 ^ (m.log2 + 1) * 2 ^ e :=
          mul_le_mul_of_nonneg_right (next.le.trans digits') positive.le
      _ = 2 ^ (((m.log2 + 1 : ℕ) : ℤ) + e) := by rw [power_add, zpow_natCast]
      _ ≤ 2 ^ (53 + max ((m.log2 : ℤ) + e - 52) (-1074)) := power_le exponent
      _ = 2 ^ 53 * 2 ^ max ((m.log2 : ℤ) + e - 52) (-1074) := by
        rw [power_add]
        norm_num
  refine ⟨⟨le_max_right _ _, above, ?_⟩, below⟩
  rcases max_choice ((m.log2 : ℤ) + e - 52) (-1074) with large | small
  · by_cases least : (m.log2 : ℤ) + e - 52 = -1074
    · exact Or.inr (large.trans least)
    · left
      have some : 0 < m := by
        rcases Nat.eq_zero_or_pos m with none | some
        · subst none
          rcases fine with large' | tiny
          · simp at large'
          · simp only [Nat.log2_zero, Nat.cast_zero] at large least
            omega
        · exact some
      have digits : ((2 ^ m.log2 : ℕ) : ℚ) ≤ m := by exact_mod_cast (log_bounds some).1
      push_cast at digits
      rw [size, large]
      calc (2 : ℚ) ^ 52 * 2 ^ ((m.log2 : ℤ) + e - 52)
          = 2 ^ ((52 : ℤ) + ((m.log2 : ℤ) + e - 52)) := by
            rw [power_add 52]
            norm_num
        _ = 2 ^ ((m.log2 : ℤ) + e) := by congr 1; ring
        _ = 2 ^ m.log2 * 2 ^ e := by rw [power_add, zpow_natCast]
        _ ≤ x * 2 ^ e := mul_le_mul_of_nonneg_right (digits.trans whole) positive.le
  · exact Or.inr small

theorem mantissa_of (m : ℕ) (accuracy : Accuracy) :
    (ExtendedMantissa.ofMantissaAndAccuracy m accuracy).mantissa = m := by
  cases accuracy with
  | exact => rfl
  | inexact order => cases order <;> rfl

theorem carry_value {r : ℕ} {t : ℤ} (digits : r ≤ 2 ^ 53) (least : -1074 ≤ t)
    (normal : 2 ^ 52 ≤ r ∨ t = -1074) :
    ∃ f g, (shiftToTargetExponent Format.binary64 r t .exact).1.mantissa = f ∧
      (shiftToTargetExponent Format.binary64 r t .exact).2 = g ∧
      (f : ℚ) * 2 ^ g = r * 2 ^ t ∧ f < 2 ^ 53 ∧ -1074 ≤ g ∧ (2 ^ 52 ≤ f ∨ g = -1074) := by
  have shifted : shiftToTargetExponent Format.binary64 r t .exact =
      (ExtendedMantissa.ofMantissaAndAccuracy r .exact >>> (target r t - t).toNat,
        t + (target r t - t).toNat) := rfl
  rw [shifted]
  rcases Nat.lt_or_eq_of_le digits with small | full
  · have few : r.log2 ≤ 52 := by
      rcases Nat.eq_zero_or_pos r with none | some
      · simp [none]
      · have bound := (Nat.log2_lt some.ne').mpr small
        omega
    have stay : (target r t - t).toNat = 0 := by
      rw [target_eq]
      omega
    rw [stay]
    exact ⟨r, t, rfl, by simp, rfl, small, least, normal⟩
  · have step : (target r t - t).toNat = 1 := by
      rw [target_eq, full, Nat.log2_two_pow]
      omega
    rw [step, full]
    refine ⟨2 ^ 52, t + 1, rfl, rfl, ?_, by norm_num, by omega, Or.inl (le_refl _)⟩
    rw [power_add]
    push_cast
    ring

/-- Rounding is a first shift, which drops digits, and a second one for the carry. -/
theorem round_shape (s : Sign) (m : ℕ) (e : ℤ) (accuracy : Accuracy) {r : ℕ} {t : ℤ}
    (mantissa : (ExtendedMantissa.ofMantissaAndAccuracy m accuracy >>>
      (target m e - e).toNat).roundedMantissa = r)
    (exponent : e + ((target m e - e).toNat : ℤ) = t) (digits : r ≤ 2 ^ 53)
    (least : -1074 ≤ t) (normal : 2 ^ 52 ≤ r ∨ t = -1074) :
    Canonical (roundWithAccuracy Format.binary64 s m e accuracy) ∧
      Extended.ofUnpacked (roundWithAccuracy Format.binary64 s m e accuracy) =
        .number (signed s (r * 2 ^ t)) := by
  have shape : roundWithAccuracy Format.binary64 s m e accuracy =
      if zero : (shiftToTargetExponent Format.binary64 r t .exact).1.mantissa = 0 then .zero s
      else .finite s _ (shiftToTargetExponent Format.binary64 r t .exact).2
        (Nat.pos_of_ne_zero zero) := by
    rw [← mantissa, ← exponent]
    rfl
  obtain ⟨f, g, isMantissa, isExponent, value, small, minimal, canonical⟩ :=
    carry_value digits least normal
  subst isMantissa isExponent
  rw [shape, ← value]
  by_cases zero : (shiftToTargetExponent Format.binary64 r t .exact).1.mantissa = 0
  · rw [dif_pos zero, zero]
    refine ⟨trivial, ?_⟩
    rw [unpacked_zero]
    cases s <;> simp [signed]
  · rw [dif_neg zero]
    exact ⟨⟨small, minimal, canonical⟩, rfl⟩

theorem round_value (s : Sign) {m : ℕ} {e : ℤ} {accuracy : Accuracy} {x : ℚ}
    (tracks : Tracks (ExtendedMantissa.ofMantissaAndAccuracy m accuracy) x)
    (fine : 2 ^ 52 ≤ m ∨ e ≤ -1074) :
    Canonical (roundWithAccuracy Format.binary64 s m e accuracy) ∧
      Extended.ofUnpacked (roundWithAccuracy Format.binary64 s m e accuracy) =
        .number (signed s (rounded (x * 2 ^ e))) := by
  have whole := tracks.whole
  have next := tracks.next
  rw [mantissa_of] at whole next
  obtain ⟨ends, below⟩ := target_ends whole next fine
  have nonneg : 0 ≤ x := le_trans (Nat.cast_nonneg m) whole
  have positive := power_pos (target m e)
  have exponent : e + ((target m e - e).toNat : ℤ) = target m e := by omega
  have power : (2 : ℚ) ^ target m e = 2 ^ e * 2 ^ (target m e - e).toNat := by
    conv_lhs => rw [← exponent, power_add, zpow_natCast]
  have scaled : x / 2 ^ (target m e - e).toNat = x * 2 ^ e / 2 ^ target m e := by
    rw [power, mul_comm x, mul_div_mul_left _ _ (power_pos e).ne']
  have tracked := tracks_rounded (tracks_shift tracks (target m e - e).toNat)
  rw [scaled] at tracked
  generalize mantissa : (ExtendedMantissa.ofMantissaAndAccuracy m accuracy >>>
    (target m e - e).toNat).roundedMantissa = r at tracked
  have value : rounded (x * 2 ^ e) = r * 2 ^ target m e := by
    rw [rounded_eq ends, ← tracked, Int.cast_natCast]
  have size : |x * 2 ^ e / 2 ^ target m e| ≤ ((2 ^ 53 : ℤ) : ℚ) := by
    rw [abs_div, abs_of_pos positive, div_le_iff₀ positive]
    exact_mod_cast ends.upper
  have digits : r ≤ 2 ^ 53 := by
    have bound := nearestInt_le size
    rw [← tracked, abs_of_nonneg (Int.natCast_nonneg r)] at bound
    exact_mod_cast bound
  have normal : 2 ^ 52 ≤ r ∨ target m e = -1074 := by
    rcases ends.lower with large | minimal
    · left
      have near := nearestInt_error (x * 2 ^ e / 2 ^ target m e)
      rw [← tracked, abs_le] at near
      rw [abs_of_nonneg (mul_nonneg nonneg (power_pos e).le), ← le_div_iff₀ positive] at large
      have close : (2 : ℚ) ^ 52 < r + 1 := by
        have lower := near.1
        push_cast at lower
        linarith
      have close' : 2 ^ 52 < r + 1 := by exact_mod_cast close
      omega
    · exact Or.inr minimal
  rw [value]
  exact round_shape s m e accuracy mantissa exponent digits ends.least normal

theorem sign_unpacked (s : Sign) (e : BitVec 11) (m : BitVec 52) :
    Sign.ofBitVec (unpackSign (packComponents Format.binary64 s e m)) = s := by
  have bit : unpackSign (packComponents Format.binary64 s e m) = s.toBitVec := by
    apply BitVec.eq_of_toNat_eq
    change ((s.toBitVec ++ e ++ m).toNat >>> 63) % 2 ^ 1 = s.toBitVec.toNat
    rw [BitVec.toNat_append, BitVec.toNat_append, ← Nat.shiftLeft_add_eq_or_of_lt m.isLt,
      ← Nat.shiftLeft_add_eq_or_of_lt e.isLt, Nat.shiftLeft_eq, Nat.shiftLeft_eq,
      Nat.shiftRight_eq_div_pow]
    have low := m.isLt
    have middle := e.isLt
    have top := s.toBitVec.isLt
    omega
  rw [bit]
  cases s <;> rfl

theorem unpack_normal {b : BitVec 64} {s : Sign} {m : ℕ} {e : ℤ} (positive : 0 < m)
    (notTop : @unpackExponent Format.binary64 b ≠ -1#11)
    (notBottom : @unpackExponent Format.binary64 b ≠ 0#11)
    (sign : Sign.ofBitVec (@unpackSign Format.binary64 b) = s)
    (mantissa : (1#1 ++ @unpackMantissa Format.binary64 b).toNat = m)
    (exponent : ((@unpackExponent Format.binary64 b).toNat : ℤ) - (1023 + 52) = e) :
    UnpackedFloat.unpack Format.binary64 b = .finite s m e positive := by
  subst sign mantissa exponent
  unfold UnpackedFloat.unpack
  exact (if_neg notTop).trans (if_neg notBottom)

theorem unpack_subnormal {b : BitVec 64} {s : Sign} {m : ℕ} (positive : 0 < m)
    (bottom : @unpackExponent Format.binary64 b = 0#11)
    (notZero : @unpackMantissa Format.binary64 b ≠ 0#52)
    (sign : Sign.ofBitVec (@unpackSign Format.binary64 b) = s)
    (mantissa : (@unpackMantissa Format.binary64 b).toNat = m) :
    UnpackedFloat.unpack Format.binary64 b = .finite s m (-1074) positive := by
  have notTop : @unpackExponent Format.binary64 b ≠ -1#11 := by
    rw [bottom]
    decide
  have exponent : ((@unpackExponent Format.binary64 b).toNat : ℤ) - (1023 + 52) + 1 = -1074 := by
    rw [bottom]
    rfl
  subst sign mantissa
  generalize same : (-1074 : ℤ) = e at exponent ⊢
  subst exponent
  unfold UnpackedFloat.unpack
  exact (if_neg notTop).trans ((if_pos bottom).trans (dif_neg notZero))

theorem mantissa_normal (m : BitVec 52) : (1#1 ++ m).toNat = 2 ^ 52 + m.toNat := by
  have one : (1#1).toNat = 1 := rfl
  rw [BitVec.toNat_append, ← Nat.shiftLeft_add_eq_or_of_lt m.isLt, Nat.shiftLeft_eq, one]
  rfl

theorem pack_normal (s : Sign) {m : ℕ} {e : ℤ} (positive : 0 < m) (low : 2 ^ 52 ≤ m)
    (high : m < 2 ^ 53) (most : e ≤ 971) :
    UnpackedFloat.pack Format.binary64 (.finite s m e positive) =
      packComponents Format.binary64 s (BitVec.ofNat 11 (e + 1075).toNat) (BitVec.ofNat 52 m) := by
  have digits : m.log2 = 52 := (Nat.log2_eq_iff positive.ne').mpr ⟨low, high⟩
  have exponent : (e + (1023 : ℤ) + 52).toNat = (e + 1075).toNat := by omega
  have fits : ¬ 2 ^ 11 ≤ (e + (1023 : ℤ) + 52).toNat + 1 := by omega
  rw [← exponent]
  unfold UnpackedFloat.pack
  exact (if_neg fits).trans (if_pos (congrArg (· + 1) digits))

theorem unpack_pack_normal (s : Sign) {m : ℕ} {e : ℤ} (positive : 0 < m) (low : 2 ^ 52 ≤ m)
    (high : m < 2 ^ 53) (least : -1074 ≤ e) (most : e ≤ 971) :
    UnpackedFloat.unpack Format.binary64
        (UnpackedFloat.pack Format.binary64 (.finite s m e positive)) =
      .finite s m e positive := by
  have biased : (BitVec.ofNat 11 (e + 1075).toNat).toNat = (e + 1075).toNat := by
    rw [BitVec.toNat_ofNat]
    omega
  have notTop : BitVec.ofNat 11 (e + 1075).toNat ≠ -1#11 := by
    intro same
    have numbers := congrArg BitVec.toNat same
    rw [biased] at numbers
    have top : (-1#11).toNat = 2047 := rfl
    omega
  have notBottom : BitVec.ofNat 11 (e + 1075).toNat ≠ 0#11 := by
    intro same
    have numbers := congrArg BitVec.toNat same
    rw [biased] at numbers
    have bottom : (0#11).toNat = 0 := rfl
    omega
  have mantissa : (1#1 ++ BitVec.ofNat 52 m).toNat = m := by
    rw [mantissa_normal, BitVec.toNat_ofNat]
    omega
  rw [pack_normal s positive low high most]
  apply unpack_normal positive
  · rwa [unpackExponent_packComponents]
  · rwa [unpackExponent_packComponents]
  · exact sign_unpacked s _ _
  · rwa [unpackMantissa_packComponents]
  · rw [unpackExponent_packComponents, biased]
    omega

theorem pack_subnormal (s : Sign) {m : ℕ} (positive : 0 < m) (low : m < 2 ^ 52) :
    UnpackedFloat.pack Format.binary64 (.finite s m (-1074) positive) =
      packComponents Format.binary64 s 0#11 (BitVec.ofNat 52 m) := by
  have digits : ¬ m.log2 + 1 = 53 := by
    have few := (Nat.log2_lt positive.ne').mpr low
    omega
  have fits : ¬ 2 ^ 11 ≤ (-1074 + (1023 : ℤ) + 52).toNat + 1 := by omega
  unfold UnpackedFloat.pack
  exact (if_neg fits).trans (if_neg digits)

theorem unpack_pack_subnormal (s : Sign) {m : ℕ} (positive : 0 < m) (low : m < 2 ^ 52) :
    UnpackedFloat.unpack Format.binary64
        (UnpackedFloat.pack Format.binary64 (.finite s m (-1074) positive)) =
      .finite s m (-1074) positive := by
  have mantissa : (BitVec.ofNat 52 m).toNat = m := by
    rw [BitVec.toNat_ofNat]
    omega
  have notZero : BitVec.ofNat 52 m ≠ 0#52 := by
    intro same
    have numbers := congrArg BitVec.toNat same
    rw [mantissa] at numbers
    have bottom : (0#52).toNat = 0 := rfl
    omega
  rw [pack_subnormal s positive low]
  apply unpack_subnormal positive
  · rw [unpackExponent_packComponents]
  · rwa [unpackMantissa_packComponents]
  · exact sign_unpacked s _ _
  · rwa [unpackMantissa_packComponents]

def Extended.bounded : Extended → Extended
  | .number x => if |x| < 2 ^ (1024 : ℤ) then .number x else .infinite (decide (x < 0))
  | other => other

theorem zero_bounded (s : Sign) : (Extended.ofUnpacked (.zero s)).bounded = .number 0 := by
  rw [unpacked_zero, Extended.bounded, if_pos (by rw [abs_zero]; exact power_pos 1024)]

theorem unpack_pack_overflow (s : Sign) {m : ℕ} {e : ℤ} (positive : 0 < m) (high : 972 ≤ e) :
    UnpackedFloat.unpack Format.binary64
        (UnpackedFloat.pack Format.binary64 (.finite s m e positive)) = .infinity s := by
  have overflow : 2 ^ 11 ≤ (e + (1023 : ℤ) + 52).toNat + 1 := by omega
  have packed : UnpackedFloat.pack Format.binary64 (.finite s m e positive) =
      packedInfinity Format.binary64 s := by
    unfold UnpackedFloat.pack
    exact if_pos overflow
  rw [packed]
  cases s <;> rfl

theorem signed_abs (s : Sign) (x : ℚ) : |signed s x| = |x| := by
  cases s <;> simp [signed]

theorem signed_negative (s : Sign) {x : ℚ} (positive : 0 < x) :
    (Extended.infinite (decide (signed s x < 0))) = Extended.ofUnpacked (.infinity s) := by
  cases s with
  | negative => exact congrArg Extended.infinite (decide_eq_true (neg_neg_of_pos positive))
  | positive => exact congrArg Extended.infinite (decide_eq_false (not_lt.mpr positive.le))

theorem finite_bounded (s : Sign) {m : ℕ} {e : ℤ} (positive : 0 < m) (high : m < 2 ^ 53)
    (most : e ≤ 971) :
    (Extended.ofUnpacked (.finite s m e positive)).bounded =
      Extended.ofUnpacked (.finite s m e positive) := by
  have small : (m : ℚ) < 2 ^ 53 := by exact_mod_cast high
  have value : 0 ≤ (m : ℚ) * 2 ^ e := mul_nonneg (Nat.cast_nonneg m) (power_pos e).le
  have fits : |signed s (m * 2 ^ e)| < 2 ^ (1024 : ℤ) := by
    rw [signed_abs, abs_of_nonneg value]
    calc (m : ℚ) * 2 ^ e < 2 ^ 53 * 2 ^ e := mul_lt_mul_of_pos_right small (power_pos e)
      _ = 2 ^ (53 + e) := by
        rw [power_add]
        norm_num
      _ ≤ 2 ^ (1024 : ℤ) := power_le (by omega)
  rw [unpacked_finite, Extended.bounded, if_pos fits]

theorem unpack_pack_value {u : UnpackedFloat} (canonical : Canonical u) :
    Extended.ofUnpacked (UnpackedFloat.unpack Format.binary64
      (UnpackedFloat.pack Format.binary64 u)) = (Extended.ofUnpacked u).bounded := by
  cases u with
  | notANumber => rfl
  | infinity s => cases s <;> rfl
  | zero s =>
    have zero : Extended.ofUnpacked (UnpackedFloat.unpack Format.binary64
        (UnpackedFloat.pack Format.binary64 (.zero s))) = .number 0 := by
      cases s <;> rfl
    rw [zero]
    exact (zero_bounded s).symm
  | finite s m e positive =>
    obtain ⟨high, least, normal⟩ := canonical
    by_cases most : e ≤ 971
    · have same : UnpackedFloat.unpack Format.binary64
          (UnpackedFloat.pack Format.binary64 (.finite s m e positive)) =
            .finite s m e positive := by
        by_cases low : 2 ^ 52 ≤ m
        · exact unpack_pack_normal s positive low high least most
        · have minimal := normal.resolve_left low
          subst minimal
          exact unpack_pack_subnormal s positive (by omega)
      rw [same, finite_bounded s positive high most]
    · have low := normal.resolve_right (by omega)
      have large : (2 : ℚ) ^ 52 ≤ m := by exact_mod_cast low
      have value : 0 < (m : ℚ) * 2 ^ e := by
        have some : (0 : ℚ) < m := by exact_mod_cast positive
        exact mul_pos some (power_pos e)
      have overflow : ¬ |signed s (m * 2 ^ e)| < 2 ^ (1024 : ℤ) := by
        rw [signed_abs, abs_of_pos value, not_lt]
        calc (2 : ℚ) ^ (1024 : ℤ) = 2 ^ (52 : ℤ) * 2 ^ (972 : ℤ) := power_add 52 972
          _ = 2 ^ 52 * 2 ^ (972 : ℤ) := rfl
          _ ≤ 2 ^ 52 * 2 ^ e := mul_le_mul_of_nonneg_left (power_le (by omega)) (by norm_num)
          _ ≤ m * 2 ^ e := mul_le_mul_of_nonneg_right large (power_pos e).le
      rw [unpack_pack_overflow s positive (by omega), unpacked_finite, Extended.bounded,
        if_neg overflow, signed_negative s value]

theorem unpack_canonical (b : BitVec 64) :
    Canonical (UnpackedFloat.unpack Format.binary64 b) ∧
      (Extended.ofUnpacked (UnpackedFloat.unpack Format.binary64 b)).bounded =
        Extended.ofUnpacked (UnpackedFloat.unpack Format.binary64 b) := by
  have digits : (@unpackMantissa Format.binary64 b).toNat < 2 ^ 52 :=
    (@unpackMantissa Format.binary64 b).isLt
  by_cases top : @unpackExponent Format.binary64 b = -1#11
  · unfold UnpackedFloat.unpack
    rw [if_pos top]
    split
    · generalize Sign.ofBitVec _ = s
      cases s <;> exact ⟨trivial, rfl⟩
    · exact ⟨trivial, rfl⟩
  · by_cases bottom : @unpackExponent Format.binary64 b = 0#11
    · by_cases zero : @unpackMantissa Format.binary64 b = 0#52
      · unfold UnpackedFloat.unpack
        rw [if_neg top, if_pos bottom, dif_pos zero]
        exact ⟨trivial, zero_bounded _⟩
      · have some : 0 < (@unpackMantissa Format.binary64 b).toNat :=
          Nat.pos_of_ne_zero fun none => zero (BitVec.eq_of_toNat_eq none)
        rw [unpack_subnormal some bottom zero rfl rfl]
        exact ⟨⟨by omega, le_refl _, Or.inr rfl⟩, finite_bounded _ _ (by omega) (by omega)⟩
    · have exponent : (@unpackExponent Format.binary64 b).toNat < 2048 :=
        (@unpackExponent Format.binary64 b).isLt
      have low : (@unpackExponent Format.binary64 b).toNat ≠ 0 :=
        fun zero => bottom (BitVec.eq_of_toNat_eq zero)
      have high : (@unpackExponent Format.binary64 b).toNat ≠ 2047 :=
        fun last => top (BitVec.eq_of_toNat_eq last)
      have mantissa := mantissa_normal (@unpackMantissa Format.binary64 b)
      rw [unpack_normal (by omega) top bottom rfl mantissa rfl]
      exact ⟨⟨by omega, by omega, Or.inl (by omega)⟩,
        finite_bounded _ _ (by omega) (by omega)⟩

theorem decreased_value (m : ℕ) (e t : ℤ) :
    ((decreaseExponent m e t).1 : ℚ) * 2 ^ (decreaseExponent m e t).2 = m * 2 ^ e := by
  change ((m <<< (e - t).toNat : ℕ) : ℚ) * 2 ^ (e - ((e - t).toNat : ℤ)) = m * 2 ^ e
  have exponent : e = (((e - t).toNat : ℕ) : ℤ) + (e - ((e - t).toNat : ℤ)) := by omega
  rw [Nat.shiftLeft_eq]
  conv_rhs => rw [exponent, power_add, zpow_natCast]
  push_cast
  ring

theorem direct_value (s : Sign) {m : ℕ} (e : ℤ) (positive : 0 < m) :
    Canonical (UnpackedFloat.round Format.binary64 s m e) ∧
      Extended.ofUnpacked (UnpackedFloat.round Format.binary64 s m e) =
        .number (signed s (rounded (m * 2 ^ e))) := by
  have fine : 2 ^ 52 ≤ (decreaseExponent m e (target m e)).1 ∨
      (decreaseExponent m e (target m e)).2 ≤ -1074 := by
    change 2 ^ 52 ≤ m <<< (e - target m e).toNat ∨ e - ((e - target m e).toNat : ℤ) ≤ -1074
    rw [target_eq, Nat.shiftLeft_eq]
    by_cases tiny : e ≤ -1074 ∨ (m.log2 : ℤ) + e - 52 ≤ -1074
    · right
      omega
    · left
      have digits : 52 ≤ m.log2 + (e - max ((m.log2 : ℤ) + e - 52) (-1074)).toNat := by omega
      calc 2 ^ 52 ≤ 2 ^ (m.log2 + (e - max ((m.log2 : ℤ) + e - 52) (-1074)).toNat) :=
            Nat.pow_le_pow_right (by norm_num) digits
        _ = 2 ^ m.log2 * 2 ^ (e - max ((m.log2 : ℤ) + e - 52) (-1074)).toNat := Nat.pow_add ..
        _ ≤ m * 2 ^ (e - max ((m.log2 : ℤ) + e - 52) (-1074)).toNat :=
            Nat.mul_le_mul_right _ (log_bounds positive).1
  have value := round_value s (tracks_exact (decreaseExponent m e (target m e)).1) fine
  rw [decreased_value] at value
  exact value

theorem normalize_value (m e : ℤ) (zeroSign : Sign) :
    Canonical (UnpackedFloat.normalize Format.binary64 m e zeroSign) ∧
      Extended.ofUnpacked (UnpackedFloat.normalize Format.binary64 m e zeroSign) =
        .number (rounded (m * 2 ^ e)) := by
  unfold UnpackedFloat.normalize
  rcases lt_trichotomy m 0 with negative | zero | positive
  · rw [Int.compare_eq_lt.mpr negative]
    obtain ⟨canonical, value⟩ := direct_value .negative e (by omega : 0 < (-m).toNat)
    refine ⟨canonical, ?_⟩
    have cast : (((-m).toNat : ℕ) : ℚ) = -(m : ℚ) := by
      exact_mod_cast (by omega : (((-m).toNat : ℕ) : ℤ) = -m)
    rw [value, cast, neg_mul, rounded_neg]
    simp [signed]
  · rw [zero, Int.compare_eq_eq.mpr rfl]
    refine ⟨trivial, ?_⟩
    rw [unpacked_zero, Int.cast_zero, zero_mul, rounded_zero]
  · rw [Int.compare_eq_gt.mpr positive]
    obtain ⟨canonical, value⟩ := direct_value .positive e (by omega : 0 < m.toNat)
    refine ⟨canonical, ?_⟩
    have cast : ((m.toNat : ℕ) : ℚ) = (m : ℚ) := by
      exact_mod_cast (by omega : ((m.toNat : ℕ) : ℤ) = m)
    rw [value, cast]
    rfl

end CurveSketch
