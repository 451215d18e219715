import CurveSketch.Proofs.DoubleOrder

/- What the results of operations on doubles stand for. -/
namespace CurveSketch
open Float.Model Float.Model.UnpackedFloat

theorem reading_add (a b : Float) : reading (a + b) = (reading a).add (reading b) := by
  obtain ⟨canonical, value⟩ := add_value (proper_unpacked a) (proper_unpacked b)
  exact (reading_packed canonical).trans value

theorem reading_sub (a b : Float) : reading (a - b) = (reading a).add (reading b).neg := by
  obtain ⟨canonical, value⟩ := add_value (proper_unpacked a) (proper_neg (proper_unpacked b))
  rw [← sub_eq_add_neg_unpacked] at canonical value
  rw [neg_value] at value
  exact (reading_packed canonical).trans value

theorem reading_mul (a b : Float) : reading (a * b) = (reading a).mul (reading b) := by
  obtain ⟨canonical, value⟩ :=
    mul_value (proper_unpacked a).canonical (proper_unpacked b).canonical
  exact (reading_packed canonical).trans value

theorem reading_div (a : Float) {b : Float} {y : ℚ} (divisor : reading b = .number y)
    (nonzero : y ≠ 0) : reading (a / b) = (reading a).divide y := by
  obtain ⟨canonical, value⟩ := div_value (u := a.toModel.unpack) divisor nonzero
  exact (reading_packed canonical).trans value

theorem abs_value {u : UnpackedFloat} (proper : Proper u) :
    Canonical u.abs ∧ (Extended.ofUnpacked u.abs).bounded = (Extended.ofUnpacked u).size := by
  cases u with
  | notANumber => exact ⟨trivial, rfl⟩
  | infinity s => cases s <;> exact ⟨trivial, rfl⟩
  | zero s =>
    exact ⟨trivial, (zero_bounded .positive).trans (congrArg Extended.number abs_zero.symm)⟩
  | finite s m e positive =>
    have value := (mantissa_value e positive).le
    have small := (proper_number proper (unpacked_finite s e positive)).2
    rw [signed_abs] at small
    refine ⟨proper.canonical, ?_⟩
    change (Extended.ofUnpacked (.finite .positive m e positive)).bounded = _
    rw [unpacked_finite, unpacked_finite, Extended.bounded, signed_abs, if_pos small,
      Extended.size, signed_abs, abs_of_nonneg value]
    rfl

theorem reading_abs (a : Float) : reading a.abs = (reading a).size := by
  obtain ⟨canonical, value⟩ := abs_value (proper_unpacked a)
  exact (reading_packed canonical).trans value

theorem representable_nat {n : ℕ} (digits : n ≤ 2 ^ 53) : Representable n :=
  ⟨n, 0, by rw [abs_of_nonneg (Int.natCast_nonneg n)]; exact_mod_cast digits, by norm_num, by simp⟩

theorem stored_nat {n : ℕ} (digits : n ≤ 2 ^ 53) : stored n = .number n := by
  have cast : (n : ℚ) ≤ 2 ^ 53 := by exact_mod_cast digits
  refine stored_number (representable_nat digits) ?_
  rw [abs_of_nonneg (Nat.cast_nonneg n)]
  calc (n : ℚ) ≤ 2 ^ 53 := cast
    _ < 2 ^ 54 := by norm_num
    _ = 2 ^ (54 : ℤ) := rfl
    _ ≤ 2 ^ (1024 : ℤ) := power_le (by norm_num)

theorem reading_one : reading (Float.ofBits 0x3FF0000000000000) = .number 1 := by
  have shape : (Float.ofBits 0x3FF0000000000000).toModel.unpack =
      .finite .positive (2 ^ 52) (-52) (by norm_num) := by rfl
  rw [reading, shape, unpacked_finite, signed]
  norm_num

theorem reading_ofNat (n : ℕ) : reading (Float.ofNat n) = stored n := by
  unfold Float.ofNat OfScientific.ofScientific instOfScientificFloat Float.ofScientific
  dsimp only
  split
  · rename_i small
    have word : n.toUInt64.toNat = n := by
      rw [Nat.toUInt64_eq, UInt64.toNat_ofNat']
      exact Nat.mod_eq_of_lt (small.1.trans (by norm_num))
    have whole : reading n.toUInt64.toFloat = .number n := by
      obtain ⟨canonical, value⟩ := normalize_value (n.toUInt64.toNat : ℤ) 0 .positive
      refine (reading_packed canonical).trans ?_
      rw [value, word, zpow_zero, mul_one, Int.cast_natCast]
      exact stored_nat small.1.le
    have product := reading_mul n.toUInt64.toFloat (Float.ofBits 0x3FF0000000000000)
    rw [whole, reading_one, Extended.mul, mul_one] at product
    exact product
  · rename_i large
    have full : 2 ^ 53 ≤ n := by omega
    have positive : 0 < n <<< 53 := by
      rw [Nat.shiftLeft_eq]
      exact Nat.mul_pos (by omega) (by norm_num)
    have fine : 2 ^ 52 ≤ n <<< 53 * 10 ^ 0 ∨ (-53 : ℤ) + 0 ≤ -1074 := by
      left
      rw [Nat.shiftLeft_eq]
      omega
    have product := product_value .positive .positive positive (by norm_num : 0 < 10 ^ 0) fine
    have shape : UnpackedFloat.ofScientific Format.binary64 n 0 =
        UnpackedFloat.mul Format.binary64 (.finite .positive (n <<< 53) (-53) positive)
          (.finite .positive (10 ^ 0) 0 (by norm_num)) := by
      have least : ¬ (0 : ℤ) < -(2 ^ Format.binary64.exponentBits + n.log2) := by
        change ¬ (0 : ℤ) < -(2 ^ 11 + n.log2)
        omega
      unfold UnpackedFloat.ofScientific
      rw [dif_neg (by omega), if_neg (by decide), if_neg least, if_pos (by decide)]
      rfl
    have whole : signed .positive (((n <<< 53 : ℕ) : ℚ) * 2 ^ (-53 : ℤ)) *
        signed .positive (((10 ^ 0 : ℕ) : ℚ) * 2 ^ (0 : ℤ)) = n := by
      rw [signed, signed, Nat.shiftLeft_eq]
      norm_num
      ring
    rw [whole, ← shape] at product
    exact (reading_packed product.1).trans (congrArg Extended.bounded product.2)

theorem reading_div_infinite {a b : Float} {x : ℚ} {s : Bool} (left : reading a = .number x)
    (right : reading b = .infinite s) : reading (a / b) = .number 0 := by
  have parts (u v : UnpackedFloat) (number : Extended.ofUnpacked u = .number x)
      (infinite : Extended.ofUnpacked v = .infinite s) :
      ∃ t, UnpackedFloat.div Format.binary64 u v = .zero t := by
    cases v with
    | notANumber => cases infinite
    | zero t => cases infinite
    | finite t n d positive => cases infinite
    | infinity t =>
      cases u with
      | notANumber => cases number
      | infinity r => cases r <;> cases number
      | zero r => exact ⟨_, rfl⟩
      | finite r m e positive => exact ⟨_, rfl⟩
  obtain ⟨t, nothing⟩ := parts a.toModel.unpack b.toModel.unpack left right
  have packed := reading_packed (u := .zero t) trivial
  rw [← nothing] at packed
  refine packed.trans ?_
  rw [nothing]
  exact zero_bounded t

theorem finite_of_div {a b : Float} (finite : (a / b).isFinite = true) : a.isFinite = true := by
  have parts (u v : UnpackedFloat) : (∃ x, Extended.ofUnpacked u = .number x) ∨
      Canonical (UnpackedFloat.div Format.binary64 u v) ∧
        ∀ z, (Extended.ofUnpacked (UnpackedFloat.div Format.binary64 u v)).bounded ≠ .number z := by
    cases u with
    | notANumber => exact Or.inr ⟨trivial, nofun⟩
    | infinity s =>
      cases v with
      | notANumber => exact Or.inr ⟨trivial, nofun⟩
      | infinity t => exact Or.inr ⟨trivial, nofun⟩
      | zero t => exact Or.inr ⟨trivial, by cases s <;> cases t <;> exact nofun⟩
      | finite t n d positive => exact Or.inr ⟨trivial, by cases s <;> cases t <;> exact nofun⟩
    | zero s => exact Or.inl ⟨0, rfl⟩
    | finite s m e positive => exact Or.inl ⟨_, unpacked_finite s e positive⟩
  rcases parts a.toModel.unpack b.toModel.unpack with number | ⟨canonical, none⟩
  · exact (isFinite_iff_reading a).mpr number
  · obtain ⟨z, value⟩ := (isFinite_iff_reading _).mp finite
    exact absurd ((reading_packed canonical).symm.trans value) (none z)

/-- The value of a finite double. -/
def worth (a : Float) : ℚ :=
  match reading a with
  | .number x => x
  | _ => 0

theorem reading_worth {a : Float} (finite : a.isFinite = true) : reading a = .number (worth a) := by
  obtain ⟨x, value⟩ := (isFinite_iff_reading a).mp finite
  rw [worth, value]

theorem finite_of_reading {a : Float} {x : ℚ} (value : reading a = .number x) :
    a.isFinite = true ∧ worth a = x :=
  ⟨(isFinite_iff_reading a).mpr ⟨x, value⟩, by rw [worth, value]⟩

theorem worth_representable (a : Float) : Representable (worth a) := by
  cases value : reading a with
  | undefined => rw [worth, value]; exact representable_zero
  | infinite s => rw [worth, value]; exact representable_zero
  | number x =>
    rw [worth, value]
    exact (reading_number value).1

theorem worth_bounded {a : Float} (finite : a.isFinite = true) : |worth a| < 2 ^ (1024 : ℤ) :=
  (reading_number (reading_worth finite)).2

theorem stored_inverse {x z : ℚ} (value : stored x = .number z) : z = rounded x := by
  rw [stored, Extended.bounded] at value
  split at value
  · exact (Extended.number.inj value).symm
  · cases value

theorem stored_within {x : ℚ} (within : |rounded x| < 2 ^ (1024 : ℤ)) :
    stored x = .number (rounded x) := by
  rw [stored, Extended.bounded, if_pos within]

namespace Extended
variable {p q : Extended} {y z : ℚ}

theorem add_number (value : p.add q = .number z) :
    ∃ x y, p = .number x ∧ q = .number y ∧ z = rounded (x + y) := by
  cases p with
  | undefined => cases value
  | infinite s =>
    cases q with
    | undefined => cases value
    | infinite t =>
      simp only [add] at value
      split at value <;> cases value
    | number y => cases value
  | number x =>
    cases q with
    | undefined => cases value
    | infinite t => cases value
    | number y => exact ⟨x, y, rfl, rfl, stored_inverse value⟩

theorem mul_number (value : p.mul q = .number z) :
    ∃ x y, p = .number x ∧ q = .number y ∧ z = rounded (x * y) := by
  cases p with
  | undefined => cases value
  | infinite s =>
    cases q with
    | undefined => cases value
    | infinite t => cases value
    | number y =>
      simp only [mul] at value
      split at value <;> cases value
  | number x =>
    cases q with
    | undefined => cases value
    | infinite t =>
      simp only [mul] at value
      split at value <;> cases value
    | number y => exact ⟨x, y, rfl, rfl, stored_inverse value⟩

theorem divide_number (value : p.divide y = .number z) :
    ∃ x, p = .number x ∧ z = rounded (x / y) := by
  cases p with
  | undefined => cases value
  | infinite s => cases value
  | number x => exact ⟨x, rfl, stored_inverse value⟩

theorem neg_number (value : p.neg = .number z) : p = .number (-z) := by
  cases p with
  | undefined => cases value
  | infinite s => cases value
  | number x =>
    cases value
    rw [neg_neg]

theorem size_number (value : p.size = .number z) : ∃ x, p = .number x ∧ z = |x| := by
  cases p with
  | undefined => cases value
  | infinite s => cases value
  | number x => exact ⟨x, rfl, (number.inj value).symm⟩

end Extended

section
variable {a b : Float}

theorem worth_add (finite : (a + b).isFinite = true) :
    a.isFinite = true ∧ b.isFinite = true ∧ worth (a + b) = rounded (worth a + worth b) := by
  have value := reading_worth finite
  rw [reading_add] at value
  obtain ⟨x, y, left, right, sum⟩ := Extended.add_number value
  obtain ⟨finite_a, rfl⟩ := finite_of_reading left
  obtain ⟨finite_b, rfl⟩ := finite_of_reading right
  exact ⟨finite_a, finite_b, sum⟩

theorem worth_sub (finite : (a - b).isFinite = true) :
    a.isFinite = true ∧ b.isFinite = true ∧ worth (a - b) = rounded (worth a - worth b) := by
  have value := reading_worth finite
  rw [reading_sub] at value
  obtain ⟨x, y, left, right, sum⟩ := Extended.add_number value
  obtain ⟨finite_a, rfl⟩ := finite_of_reading left
  obtain ⟨finite_b, worth_b⟩ := finite_of_reading (Extended.neg_number right)
  refine ⟨finite_a, finite_b, ?_⟩
  rw [sum, worth_b, sub_neg_eq_add]

theorem worth_mul (finite : (a * b).isFinite = true) :
    a.isFinite = true ∧ b.isFinite = true ∧ worth (a * b) = rounded (worth a * worth b) := by
  have value := reading_worth finite
  rw [reading_mul] at value
  obtain ⟨x, y, left, right, product⟩ := Extended.mul_number value
  obtain ⟨finite_a, rfl⟩ := finite_of_reading left
  obtain ⟨finite_b, rfl⟩ := finite_of_reading right
  exact ⟨finite_a, finite_b, product⟩

theorem worth_div (divisor : b.isFinite = true) (nonzero : worth b ≠ 0)
    (finite : (a / b).isFinite = true) :
    a.isFinite = true ∧ worth (a / b) = rounded (worth a / worth b) := by
  have value := reading_worth finite
  rw [reading_div a (reading_worth divisor) nonzero] at value
  obtain ⟨x, left, quotient⟩ := Extended.divide_number value
  obtain ⟨finite_a, rfl⟩ := finite_of_reading left
  exact ⟨finite_a, quotient⟩

theorem worth_abs (finite : a.abs.isFinite = true) :
    a.isFinite = true ∧ worth a.abs = |worth a| := by
  have value := reading_worth finite
  rw [reading_abs] at value
  obtain ⟨x, left, size⟩ := Extended.size_number value
  obtain ⟨finite_a, rfl⟩ := finite_of_reading left
  exact ⟨finite_a, size⟩

theorem worth_nat {n : ℕ} (finite : (Float.ofNat n).isFinite = true) :
    worth (Float.ofNat n) = rounded n := by
  have value := reading_worth finite
  rw [reading_ofNat] at value
  exact stored_inverse value

theorem worth_small_nat {n : ℕ} (small : n ≤ 2 ^ 53) :
    (Float.ofNat n).isFinite = true ∧ worth (Float.ofNat n) = n := by
  apply finite_of_reading
  rw [reading_ofNat, stored_nat small]

theorem finite_add (left : a.isFinite = true) (right : b.isFinite = true)
    (within : |rounded (worth a + worth b)| < 2 ^ (1024 : ℤ)) :
    (a + b).isFinite = true ∧ worth (a + b) = rounded (worth a + worth b) := by
  apply finite_of_reading
  rw [reading_add, reading_worth left, reading_worth right]
  exact stored_within within

theorem finite_mul (left : a.isFinite = true) (right : b.isFinite = true)
    (within : |rounded (worth a * worth b)| < 2 ^ (1024 : ℤ)) :
    (a * b).isFinite = true ∧ worth (a * b) = rounded (worth a * worth b) := by
  apply finite_of_reading
  rw [reading_mul, reading_worth left, reading_worth right]
  exact stored_within within

theorem finite_div (left : a.isFinite = true) (right : b.isFinite = true) (nonzero : worth b ≠ 0)
    (within : |rounded (worth a / worth b)| < 2 ^ (1024 : ℤ)) :
    (a / b).isFinite = true ∧ worth (a / b) = rounded (worth a / worth b) := by
  apply finite_of_reading
  rw [reading_div a (reading_worth right) nonzero, reading_worth left]
  exact stored_within within

theorem le_iff_worth (left : a.isFinite = true) (right : b.isFinite = true) :
    a ≤ b ↔ worth a ≤ worth b := le_iff_of_readings (reading_worth left) (reading_worth right)

theorem lt_iff_worth (left : a.isFinite = true) (right : b.isFinite = true) :
    a < b ↔ worth a < worth b := lt_iff_of_readings (reading_worth left) (reading_worth right)

end

end CurveSketch
