import Allotment.Proofs.Binary64
import Allotment.Proofs.WholeUnits.Units

/-!
# Exact values

A finite binary64 number is a mantissa times a power of two, so it has an exact rational value. Order
is order of these values (`floatValue_le`), because a mantissa is as long as its exponent lets it be
(`Normal`), and the whole numbers that a binary64 number is rounded to are those that its value is
rounded to, held to the range of 64 bits. `ExactUnits` states what is used of this about a number
system, and holds of the rationals as well.

A product with one has the mantissa of its other factor with zeros appended, so that nothing of it is
rounded away (`roundWithAccuracy_of_normal`): binary64 has `NeutralUnits`.
-/

namespace Allotment
set_option autoImplicit false

/-! ## Number systems with exact values -/

/-- **A number system whose finite numbers have exact values**: these are in the order of the numbers,
and it is from them that whole numbers are taken. -/
class ExactUnits (α : Type) [Scalar α] where
  value : α → ℚ
  value_zero : value 0 = 0
  isFinite_zero : Scalar.isFinite (0 : α) = true
  value_le {x y : α} (hx : Scalar.isFinite x = true) (hy : Scalar.isFinite y = true) (h : ¬y < x) :
    value x ≤ value y
  floor {x : α} (hx : Scalar.isFinite x = true) : Scalar.floor x = Int64.ofIntClamp ⌊value x⌋
  ceil {x : α} (hx : Scalar.isFinite x = true) : Scalar.ceil x = Int64.ofIntClamp ⌈value x⌉
  round {x : α} (hx : Scalar.isFinite x = true) :
    Scalar.round x = Int64.ofIntClamp (Scalar.nearestInt (value x))

instance : ExactUnits ℚ where
  value := id
  value_zero := rfl
  isFinite_zero := rfl
  value_le _ _ h := not_lt.mp h
  floor _ := rfl
  ceil {x} _ := by
    rw [id, ← WholeUnits.ceil_rat]
    rfl
  round _ := rfl

namespace ExactUnits

variable {α : Type} [Scalar α] [ExactUnits α] {x : α} (hx : Scalar.isFinite x = true)
include hx

theorem toInt_floor : (Scalar.floor x : Int64).toInt = held ⌊value x⌋ := by
  rw [floor hx, toInt_ofIntClamp_eq_held]

theorem toInt_ceil : (Scalar.ceil x : Int64).toInt = held ⌈value x⌉ := by
  rw [ceil hx, toInt_ofIntClamp_eq_held]

theorem toInt_round : (Scalar.round x : Int64).toInt = held (Scalar.nearestInt (value x)) := by
  rw [round hx, toInt_ofIntClamp_eq_held]

end ExactUnits

/-! ## Binary64 -/

namespace Binary64

open Float.Model Float.Model.UnpackedFloat

/-- A mantissa that is as long as its exponent lets it be. -/
def Normal (mantissa : ℕ) (exponent : ℤ) : Prop :=
  mantissa < 2 ^ 53 ∧ (2 ^ 52 ≤ mantissa ∨ exponent = -1074) ∧ -1074 ≤ exponent

theorem normal_unpacked {x : Float} {s : Sign} {m : ℕ} {e : ℤ} {pos : 0 < m}
    (h : unpacked x = .finite s m e pos) : Normal m e := by
  change UnpackedFloat.unpack .binary64 x.toModel.toBits.toBitVec = _ at h
  rw [unpack_eq, assemble] at h
  split_ifs at h with infinite zero tiny none
  · have lt := (@unpackMantissa .binary64 x.toModel.toBits.toBitVec).isLt
    injection h with _ mantissa exponent
    rw [tiny] at exponent
    change _ < 2 ^ 52 at lt
    change (0 : ℤ) - 1075 + 1 = e at exponent
    exact ⟨by omega, .inr (by omega), by omega⟩
  · have lt := (@unpackMantissa .binary64 x.toModel.toBits.toBitVec).isLt
    injection h with _ mantissa exponent
    rw [toNat_append_one] at mantissa
    have field : (@unpackExponent .binary64 x.toModel.toBits.toBitVec).toNat ≠ 0 := fun zero =>
      tiny (BitVec.eq_of_toNat_eq zero)
    change _ < 2 ^ 52 at lt
    exact ⟨by omega, .inl (by omega), by omega⟩

theorem magnitude_eq (m : ℕ) (e : ℤ) : Scalar.magnitude m e = m * (2 : ℚ) ^ e := by
  rw [Scalar.magnitude, Rat.mkRat_eq_div]
  obtain ⟨n, rfl | rfl⟩ := e.eq_nat_or_neg
  · simp
  · simp [zpow_neg, div_eq_mul_inv]

theorem magnitude_nonneg (m : ℕ) (e : ℤ) : 0 ≤ Scalar.magnitude m e := by
  rw [magnitude_eq]
  positivity

/-- Magnitudes are in the order of their exponents, and of their mantissas where these agree. -/
theorem magnitude_le {m n : ℕ} {e d : ℤ} (hm : Normal m e) (hn : Normal n d)
    (h : (Ord.compare e d).then (Ord.compare m n) ≠ .gt) : Scalar.magnitude m e ≤ Scalar.magnitude n d := by
  rw [magnitude_eq, magnitude_eq]
  obtain below | rfl | above := lt_trichotomy e d
  · have long : 2 ^ 52 ≤ n := hn.2.1.resolve_right (by have := hm.2.2; omega)
    calc (m : ℚ) * 2 ^ e ≤ 2 ^ 53 * 2 ^ e := by
          have short : (m : ℚ) ≤ 2 ^ 53 := by exact_mod_cast hm.1.le
          gcongr
      _ = 2 ^ 52 * 2 ^ (e + 1) := by rw [zpow_add_one₀ two_ne_zero]; ring
      _ ≤ n * 2 ^ d := by
          have long : (2 : ℚ) ^ 52 ≤ n := by exact_mod_cast long
          gcongr
          · norm_num
          · omega
  · have le : (m : ℚ) ≤ n := by
      rw [compare_eq_iff_eq.mpr rfl] at h
      exact_mod_cast compare_le_iff_le.mp h
    gcongr
  · exact absurd (by rw [compare_gt_iff_gt.mpr above]; rfl) h

theorem floatValue_eq (x : Float) : Scalar.floatValue x = match unpacked x with
    | .finite .positive m e _ => Scalar.magnitude m e
    | .finite .negative m e _ => -Scalar.magnitude m e
    | _ => 0 := rfl

/-- **The order of binary64 numbers is that of their values.** -/
theorem floatValue_le {x y : Float} (hx : Scalar.isFinite x = true) (hy : Scalar.isFinite y = true)
    (h : ¬y < x) : Scalar.floatValue x ≤ Scalar.floatValue y := by
  change (unpacked x).isFinite = true at hx
  change (unpacked y).isFinite = true at hy
  rw [lt_iff] at h
  rw [floatValue_eq, floatValue_eq]
  have swap (m n : ℕ) (e d : ℤ) : (Ord.compare d e).then (Ord.compare n m) =
      ((Ord.compare e d).then (Ord.compare m n)).swap := by
    rw [Ordering.swap_then, ← Std.OrientedCmp.eq_swap, ← Std.OrientedCmp.eq_swap]
  rcases ux : unpacked x with _ | _ | _ | ⟨_ | _, m, e, pos⟩ <;>
    rcases uy : unpacked y with _ | _ | _ | ⟨_ | _, n, d, pos'⟩ <;> rw [ux] at hx h <;> rw [uy] at hy h
  case zero.finite.positive => exact magnitude_nonneg n d
  case finite.negative.zero => exact neg_nonpos.mpr (magnitude_nonneg m e)
  case finite.negative.finite.positive =>
    exact (neg_nonpos.mpr (magnitude_nonneg m e)).trans (magnitude_nonneg n d)
  case finite.negative.finite.negative =>
    refine neg_le_neg (magnitude_le (normal_unpacked uy) (normal_unpacked ux) fun above => h ?_)
    change some ((Ord.compare d e).then (Ord.compare n m)).swap = some .lt
    rw [above]
    rfl
  case finite.positive.finite.positive =>
    refine magnitude_le (normal_unpacked ux) (normal_unpacked uy) fun above => h ?_
    change some ((Ord.compare d e).then (Ord.compare n m)) = some .lt
    rw [swap, above]
    rfl
  all_goals first
    | exact absurd hx Bool.false_ne_true
    | exact absurd hy Bool.false_ne_true
    | exact absurd rfl h

/-- A finite number is taken to the whole number that its value is taken to. -/
theorem floatUnits_of_finite {x : Float} (hx : Scalar.isFinite x = true) (whole : ℚ → ℤ) :
    Scalar.floatUnits whole x = Int64.ofIntClamp (whole (Scalar.floatValue x)) := by
  change (unpacked x).isFinite = true at hx
  have unpacks : Scalar.unpackFloat x = unpacked x := rfl
  rw [Scalar.floatUnits, unpacks]
  rcases ux : unpacked x with _ | _ | _ | _ <;> rw [ux] at hx
  all_goals exact absurd hx Bool.false_ne_true

instance : ExactUnits Float where
  value := Scalar.floatValue
  value_zero := by decide +kernel
  isFinite_zero := by decide
  value_le := floatValue_le
  floor hx := floatUnits_of_finite hx Rat.floor
  ceil hx := (floatUnits_of_finite hx Rat.ceil).trans (by rw [WholeUnits.ceil_rat])
  round hx := floatUnits_of_finite hx Scalar.nearestInt

/-! ## Zero and one -/

/-- A mantissa that ends in zeros is shifted over them, and nothing is left of them. -/
theorem shiftRight_mul_two_pow (m k : ℕ) :
    (⟨m * 2 ^ k, false, false⟩ : ExtendedMantissa) >>> k = ⟨m, false, false⟩ := by
  induction k generalizing m with
  | zero => rw [pow_zero, Nat.mul_one]; rfl
  | succ k ih =>
    change ExtendedMantissa.shiftRightOne ((⟨m * 2 ^ (k + 1), false, false⟩ : ExtendedMantissa) >>> k) = _
    rw [pow_succ', ← Nat.mul_assoc, ih]
    simp [ExtendedMantissa.shiftRightOne]

/-- A mantissa with zeros appended to it is brought back to the exponent it had without them. -/
theorem shiftToTargetExponent_of_normal {m : ℕ} {e : ℤ} (normal : Normal m e) (pos : 0 < m) (k : ℕ) :
    shiftToTargetExponent .binary64 (m * 2 ^ k) (e - k) .exact = (⟨m, false, false⟩, e) := by
  obtain ⟨short, long, range⟩ := normal
  have log : (m * 2 ^ k).log2 = m.log2 + k := by
    obtain ⟨above, below⟩ := (Nat.log2_eq_iff pos.ne').mp rfl
    rw [Nat.log2_eq_iff (Nat.mul_pos pos (Nat.two_pow_pos k)).ne', Nat.add_right_comm, pow_add, pow_add]
    exact ⟨Nat.mul_le_mul_right _ above, Nat.mul_lt_mul_of_pos_right below (Nat.two_pow_pos k)⟩
  have bound : m.log2 < 53 := (Nat.log2_lt pos.ne').mpr short
  have target : Format.binary64.targetExponent (totalExponent (m * 2 ^ k) (e - k)) = e := by
    rw [Format.targetExponent, totalExponent, log]
    change max (_ - (53 : ℤ)) (-1074) = e
    obtain long | rfl := long
    · have : 52 ≤ m.log2 := (Nat.le_log2 pos.ne').mpr long
      omega
    · omega
  rw [shiftToTargetExponent, target, shiftToExponent]
  have amount : (e - (e - k)).toNat = k := by omega
  simp only [amount, ExtendedMantissa.ofMantissaAndAccuracy]
  rw [shiftRight_mul_two_pow, sub_add_cancel]

/-- **A result that has a mantissa and an exponent of its own is not rounded.** -/
theorem roundWithAccuracy_of_normal {m : ℕ} {e : ℤ} (normal : Normal m e) (pos : 0 < m) (s : Sign)
    (k : ℕ) : roundWithAccuracy .binary64 s (m * 2 ^ k) (e - k) .exact = .finite s m e pos := by
  have again := shiftToTargetExponent_of_normal normal pos 0
  rw [pow_zero, Nat.mul_one, Nat.cast_zero, sub_zero] at again
  have rounded : (⟨m, false, false⟩ : ExtendedMantissa).roundedMantissa = m := rfl
  simp only [roundWithAccuracy, shiftToTargetExponent_of_normal normal pos k, rounded, again]
  exact dif_neg pos.ne'

/-- The two zeros are what equals zero. -/
theorem eq_zero_of_beq {z : Float} (zero : (z == 0) = true) : ∃ s, z = packed (.zero s) := by
  have alike := (same_iff z 0).mp (.inr zero)
  have positive : unpacked 0 = .zero .positive := by rfl
  rw [positive] at alike
  obtain same | ⟨s, -, same, -⟩ := alike
  · exact ⟨_, by rw [← same, packed_unpacked]⟩
  · exact ⟨s, by rw [← same, packed_unpacked]⟩

theorem unpacked_one : unpacked 1 = .finite .positive (2 ^ 52) (-52) (by decide) := by
  rfl

theorem mul_one_unpacked (a : Float) : mul .binary64 (unpacked a) (unpacked 1) = unpacked a := by
  have sign (s : Sign) : s * .positive = s := by cases s <;> rfl
  rw [unpacked_one]
  cases h : unpacked a with
  | finite s m e pos =>
    change roundWithAccuracy .binary64 (s * .positive) (m * 2 ^ 52) (e - (52 : ℕ)) .exact = _
    rw [sign, roundWithAccuracy_of_normal (normal_unpacked h) pos]
  | infinity s => exact congrArg _ (sign s)
  | zero s => exact congrArg _ (sign s)
  | notANumber => rfl

instance : NeutralUnits Float where
  mul_one a := by
    change packed (mul .binary64 (unpacked a) (unpacked 1)) = a
    rw [mul_one_unpacked, packed_unpacked]
  one_add {z} zero := by
    obtain ⟨s, rfl⟩ := eq_zero_of_beq zero
    cases s <;> decide +kernel
  add_zero {z} zero a := by
    obtain ⟨s, rfl⟩ := eq_zero_of_beq zero
    rw [same_iff]
    have same : Alike (add .binary64 (unpacked a) (.zero s)) (unpacked a) := by
      cases unpacked a with
      | zero t => cases s <;> cases t <;> exact .zero _ _
      | _ => exact .refl _
    have rounded := same.packed
    rw [packed_unpacked] at rounded
    rwa [← unpacked_packed_zero s] at rounded
  percent {z} zero := by
    obtain ⟨s, rfl⟩ := eq_zero_of_beq zero
    cases s <;> decide +kernel
  mul_left h c := (same_iff _ _).mpr (((same_iff _ _).mp h).mul_left (unpacked c)).packed
  isFinite_congr h := ((same_iff _ _).mp h).isFinite

end Binary64

end Allotment
