import Allotment.Proofs.NumberSystem

/-!
# Binary64

A `Float` is a pattern of sixty-four bits, which is unpacked into a sign and a magnitude, worked with,
rounded and packed again. What is needed of it here is how the sign goes through: the sign of a number
is one of its bits (`packComponents_unpack`), rounding and packing leave it alone
(`unpack_pack_neg`), so that negation is exact.
-/

namespace Allotment.Binary64
set_option autoImplicit false

open Float.Model Float.Model.UnpackedFloat

/-! ## Fields -/

theorem toBitVec_ofBitVec (v : BitVec 1) : (Sign.ofBitVec v).toBitVec = v := by
  rcases v.eq_zero_or_eq_one with rfl | rfl <;> rfl

theorem ofBitVec_toBitVec (s : Sign) : Sign.ofBitVec s.toBitVec = s := by cases s <;> rfl

theorem unpackSign_packComponents (s : Sign) (e : BitVec 11) (m : BitVec 52) :
    unpackSign (packComponents .binary64 s e m) = s.toBitVec := by
  apply BitVec.eq_of_getLsbD_eq
  intro i hi
  obtain rfl : i = 0 := by omega
  simp only [unpackSign, packComponents]
  simp only [BitVec.getLsbD_cast, BitVec.getLsbD_extractLsb]
  rw [BitVec.getLsbD_append, BitVec.getLsbD_append]
  simp

/-- **The three fields make up the whole pattern.** -/
theorem packComponents_unpack (b : BitVec 64) :
    packComponents .binary64 (Sign.ofBitVec (@unpackSign .binary64 b))
      (@unpackExponent .binary64 b) (@unpackMantissa .binary64 b) = b := by
  simp only [packComponents, toBitVec_ofBitVec, unpackSign, unpackExponent, unpackMantissa,
    BitVec.extractLsb]
  ext i hi
  grind

theorem toNat_append_one (m : BitVec 52) : (1#1 ++ m).toNat = 2 ^ 52 + m.toNat := by
  rw [BitVec.toNat_append, ← Nat.shiftLeft_add_eq_or_of_lt m.isLt]
  simp [Nat.shiftLeft_eq]

/-- The number with a sign, an exponent field and a mantissa field. -/
def assemble (s : Sign) (e : BitVec 11) (m : BitVec 52) : UnpackedFloat :=
  if e = -1#_ then
    if m = 0#_ then .infinity s else .notANumber
  else if e = 0#_ then
    if h : m = 0#_ then .zero s
    else .finite s m.toNat ((e.toNat : ℤ) - 1075 + 1)
      (by simpa [BitVec.toNat_pos, BitVec.pos_iff_ne_zero])
  else .finite s (1#1 ++ m).toNat ((e.toNat : ℤ) - 1075) (by rw [toNat_append_one]; positivity)

theorem unpack_eq (b : BitVec 64) : UnpackedFloat.unpack .binary64 b =
    assemble (Sign.ofBitVec (@unpackSign .binary64 b))
      (@unpackExponent .binary64 b) (@unpackMantissa .binary64 b) := rfl

theorem unpack_packComponents (s : Sign) (e : BitVec 11) (m : BitVec 52) :
    UnpackedFloat.unpack .binary64 (packComponents .binary64 s e m) = assemble s e m := by
  rw [unpack_eq]
  rw [unpackSign_packComponents, ofBitVec_toBitVec, unpackExponent_packComponents,
    unpackMantissa_packComponents]

theorem neg_assemble (s : Sign) (e : BitVec 11) (m : BitVec 52) :
    (assemble s e m).neg = assemble (-s) e m := by
  unfold assemble
  split_ifs <;> rfl

/-- Fields that do not stand for an undefined number. -/
def Defined (e : BitVec 11) (m : BitVec 52) : Prop := ¬(e = -1#_ ∧ m ≠ 0#_)

theorem pack_assemble {s : Sign} {e : BitVec 11} {m : BitVec 52} (defined : Defined e m) :
    UnpackedFloat.pack .binary64 (assemble s e m) = packComponents .binary64 s e m := by
  have bias : Format.binary64.exponentBias = 1023 := by decide
  have small := m.isLt
  unfold assemble
  split_ifs with infinite none tiny zero
  · subst infinite none
    rfl
  · exact absurd ⟨infinite, none⟩ defined
  · subst tiny zero
    rfl
  · have pos : m.toNat ≠ 0 := fun h => zero (BitVec.eq_of_toNat_eq h)
    have log : m.toNat.log2 < 52 := (Nat.log2_lt pos).mpr small
    subst tiny
    rw [UnpackedFloat.pack, if_neg (by simp [bias]), if_neg (by simp [Format.mantissaBits]; omega)]
    simp
  · have top : e.toNat ≠ 2047 := fun h => infinite (BitVec.eq_of_toNat_eq h)
    have lt := e.isLt
    have log : (1#1 ++ m).toNat.log2 = 52 := by
      rw [toNat_append_one, Nat.log2_eq_iff (by positivity)]
      omega
    have biased : ((e.toNat : ℤ) - 1075 + Format.binary64.exponentBias +
        Format.binary64.mantissaBitsWithoutImplicit).toNat = e.toNat := by
      rw [bias, show Format.binary64.mantissaBitsWithoutImplicit = 52 from rfl]
      omega
    rw [UnpackedFloat.pack]
    simp only [biased, log]
    rw [if_neg (by omega), if_pos (by decide)]
    congr 1
    · simp
    · apply BitVec.eq_of_toNat_eq
      rw [BitVec.toNat_ofNat, toNat_append_one]
      omega

/-! ## Packing and unpacking -/

/-- **A valid pattern is what its number is packed into.** -/
theorem pack_unpack {b : BitVec 64} (valid : Format.binary64.Valid b) :
    UnpackedFloat.pack .binary64 (UnpackedFloat.unpack .binary64 b) = b := by
  by_cases defined : Defined (@unpackExponent .binary64 b)
      (@unpackMantissa .binary64 b)
  · rw [unpack_eq, pack_assemble defined, packComponents_unpack]
  · obtain ⟨top, payload⟩ := not_not.mp defined
    rw [unpack_eq, assemble, if_pos top, if_neg payload]
    exact (valid.eq_packedNaN top payload).symm

/-- Packing puts the sign into its field, and the other fields do not depend on it. -/
theorem exists_pack (x : UnpackedFloat) : x = .notANumber ∨ ∃ s e m, Defined e m ∧
    UnpackedFloat.pack .binary64 x = packComponents .binary64 s e m ∧
      UnpackedFloat.pack .binary64 x.neg = packComponents .binary64 (-s) e m := by
  cases x with
  | notANumber => exact .inl rfl
  | infinity s => exact .inr ⟨s, -1#_, 0#_, fun h => h.2 rfl, rfl, rfl⟩
  | zero s => exact .inr ⟨s, 0#_, 0#_, fun h => h.2 rfl, rfl, rfl⟩
  | finite s m e pos =>
    right
    simp only [UnpackedFloat.neg, UnpackedFloat.pack]
    split_ifs with large normal
    · exact ⟨s, -1#_, 0#_, fun h => h.2 rfl, rfl, rfl⟩
    · refine ⟨s, _, _, fun h => ?_, rfl, rfl⟩
      have top := congrArg BitVec.toNat h.1
      rw [BitVec.toNat_ofNat] at top
      have same : (-1#11).toNat = 2047 := rfl
      omega
    · exact ⟨s, 0#_, _, fun h => absurd h.1 (by decide), rfl, rfl⟩

/-- **Negation and rounding to a pattern commute.** -/
theorem unpack_pack_neg (x : UnpackedFloat) :
    UnpackedFloat.unpack .binary64 (UnpackedFloat.pack .binary64 x.neg) =
      (UnpackedFloat.unpack .binary64 (UnpackedFloat.pack .binary64 x)).neg := by
  obtain rfl | ⟨s, e, m, -, same, negated⟩ := exists_pack x
  · rfl
  · rw [same, negated, unpack_packComponents, unpack_packComponents, neg_assemble]

/-! ## Operations on unpacked numbers -/

theorem neg_neg_sign (s : Sign) : - -s = s := by cases s <;> rfl

theorem neg_mul_sign (s t : Sign) : -s * t = -(s * t) := by cases s <;> cases t <;> rfl

theorem mul_neg_sign (s t : Sign) : s * -t = -(s * t) := by cases s <;> cases t <;> rfl

theorem neg_div_sign (s t : Sign) : -s / t = -(s / t) := by cases s <;> cases t <;> rfl

theorem roundWithAccuracy_neg (s : Sign) (m : ℕ) (e : ℤ) (accuracy : Accuracy) :
    roundWithAccuracy .binary64 (-s) m e accuracy =
      (roundWithAccuracy .binary64 s m e accuracy).neg := by
  unfold roundWithAccuracy
  dsimp only
  split <;> rfl

variable (x y : UnpackedFloat)

theorem neg_neg_unpacked : x.neg.neg = x := by
  cases x <;> simp [UnpackedFloat.neg, neg_neg_sign]

theorem neg_mul_unpacked : mul .binary64 x.neg y = (mul .binary64 x y).neg := by
  cases x <;> cases y <;>
    simp [UnpackedFloat.neg, UnpackedFloat.mul, neg_mul_sign, roundWithAccuracy_neg]

theorem mul_neg_unpacked : mul .binary64 x y.neg = (mul .binary64 x y).neg := by
  cases x <;> cases y <;>
    simp [UnpackedFloat.neg, UnpackedFloat.mul, mul_neg_sign, roundWithAccuracy_neg]

theorem neg_div_unpacked : div .binary64 x.neg y = (div .binary64 x y).neg := by
  cases x <;> cases y <;>
    simp [UnpackedFloat.neg, UnpackedFloat.div, neg_div_sign, roundWithAccuracy_neg]

theorem abs_neg_unpacked : x.neg.abs = x.abs := by
  cases x <;> rfl

/-! ## Up to the sign of zero -/

/-- The same number, where the sign of zero does not count. -/
def Alike (x y : UnpackedFloat) : Prop := x = y ∨ ∃ s t, x = .zero s ∧ y = .zero t

variable {x y}

theorem Alike.refl (x : UnpackedFloat) : Alike x x := .inl rfl

theorem Alike.zero (s t : Sign) : Alike (.zero s) (.zero t) := .inr ⟨s, t, rfl, rfl⟩

theorem Alike.symm (h : Alike x y) : Alike y x := by
  obtain rfl | ⟨s, t, rfl, rfl⟩ := h
  · exact .refl _
  · exact .zero t s

theorem Alike.trans {z : UnpackedFloat} (h : Alike x y) (h' : Alike y z) : Alike x z := by
  obtain rfl | ⟨s, t, rfl, rfl⟩ := h
  · exact h'
  · obtain rfl | ⟨s', t', -, rfl⟩ := h'
    · exact .zero s t
    · exact .zero s t'

/-- Two zeros are the only thing to look at. -/
theorem Alike.congr {f : UnpackedFloat → UnpackedFloat} (h : Alike x y)
    (zeros : ∀ s t, Alike (f (.zero s)) (f (.zero t))) : Alike (f x) (f y) := by
  obtain rfl | ⟨s, t, rfl, rfl⟩ := h
  · exact .refl _
  · exact zeros s t

theorem Alike.abs (h : Alike x y) : x.abs = y.abs := by
  obtain rfl | ⟨s, t, rfl, rfl⟩ := h <;> rfl

theorem Alike.isFinite (h : Alike x y) : x.isFinite = y.isFinite := by
  obtain rfl | ⟨s, t, rfl, rfl⟩ := h <;> rfl

variable (z : UnpackedFloat)

theorem Alike.compare_right (h : Alike x y) : z.compare x = z.compare y := by
  obtain rfl | ⟨s, t, rfl, rfl⟩ := h
  · rfl
  · rcases z with (_ | _) | _ | _ | ⟨_ | _⟩ <;> rfl

theorem Alike.add_left (h : Alike x y) : Alike (add .binary64 x z) (add .binary64 y z) :=
  h.congr (f := (add .binary64 · z)) fun s t => by
    cases z with
    | zero u => cases s <;> cases t <;> cases u <;> exact .zero _ _
    | _ => exact .refl _

theorem Alike.sub_left (h : Alike x y) : Alike (sub .binary64 x z) (sub .binary64 y z) :=
  h.congr (f := (sub .binary64 · z)) fun s t => by
    cases z with
    | zero u => cases s <;> cases t <;> cases u <;> exact .zero _ _
    | _ => exact .refl _

theorem Alike.sub_right (h : Alike x y) : Alike (sub .binary64 z x) (sub .binary64 z y) :=
  h.congr (f := sub .binary64 z) fun s t => by
    cases z with
    | zero u => cases s <;> cases t <;> cases u <;> exact .zero _ _
    | _ => exact .refl _

theorem Alike.mul_right (h : Alike x y) : Alike (mul .binary64 z x) (mul .binary64 z y) :=
  h.congr (f := mul .binary64 z) fun s t => by
    cases z with
    | zero u => exact .zero _ _
    | finite u m e pos => exact .zero _ _
    | _ => exact .refl _

theorem Alike.mul_left (h : Alike x y) : Alike (mul .binary64 x z) (mul .binary64 y z) :=
  h.congr (f := (mul .binary64 · z)) fun s t => by
    cases z with
    | zero u => exact .zero _ _
    | finite u m e pos => exact .zero _ _
    | _ => exact .refl _

theorem Alike.div_left (h : Alike x y) : Alike (div .binary64 x z) (div .binary64 y z) :=
  h.congr (f := (div .binary64 · z)) fun s t => by
    cases z with
    | infinity u => exact .zero _ _
    | finite u m e pos => exact .zero _ _
    | _ => exact .refl _

theorem round_neg (s : Sign) (m : ℕ) (e : ℤ) :
    UnpackedFloat.round .binary64 (-s) m e = (UnpackedFloat.round .binary64 s m e).neg :=
  roundWithAccuracy_neg _ _ _ _

theorem normalize_neg (m e : ℤ) (s t : Sign) :
    Alike (UnpackedFloat.normalize .binary64 (-m) e s)
      (UnpackedFloat.normalize .binary64 m e t).neg := by
  unfold UnpackedFloat.normalize
  rcases lt_trichotomy m 0 with less | rfl | more
  · rw [compare_gt_iff_gt.mpr (neg_pos.mpr less), compare_lt_iff_lt.mpr less]
    exact .inl (round_neg .negative _ _)
  · exact .zero _ _
  · rw [compare_lt_iff_lt.mpr (neg_neg_iff_pos.mpr more), compare_gt_iff_gt.mpr more, neg_neg]
    exact .inl (round_neg .positive _ _)

theorem apply_neg (s : Sign) (m : ℤ) : (-s).apply m = -s.apply m := by
  cases s
  · exact (neg_neg m).symm
  · rfl

variable (x y)

theorem neg_add_unpacked : Alike (add .binary64 x.neg y.neg) (add .binary64 x y).neg := by
  rcases x with s | _ | s | ⟨s, m, e, pos⟩ <;> rcases y with t | _ | t | ⟨t, n, d, pos'⟩
  case finite.finite =>
    simp only [UnpackedFloat.neg, UnpackedFloat.add, apply_neg, ← neg_add]
    exact normalize_neg _ _ _ _
  case infinity.infinity => cases s <;> cases t <;> exact .refl _
  case zero.zero => cases s <;> cases t <;> exact .zero _ _
  all_goals exact .refl _

theorem neg_sub_unpacked : Alike (sub .binary64 x.neg y.neg) (sub .binary64 x y).neg := by
  rcases x with s | _ | s | ⟨s, m, e, pos⟩ <;> rcases y with t | _ | t | ⟨t, n, d, pos'⟩
  case finite.finite =>
    simp only [UnpackedFloat.neg, UnpackedFloat.sub, apply_neg, ← neg_sub']
    exact normalize_neg _ _ _ _
  case infinity.infinity => cases s <;> cases t <;> exact .refl _
  case zero.zero => cases s <;> cases t <;> exact .zero _ _
  all_goals exact .refl _

theorem sub_swap_unpacked : Alike (sub .binary64 x y) (sub .binary64 y x).neg := by
  rcases x with s | _ | s | ⟨s, m, e, pos⟩ <;> rcases y with t | _ | t | ⟨t, n, d, pos'⟩
  case finite.finite =>
    simp only [UnpackedFloat.sub, min_comm d e]
    rw [← neg_sub (t.apply _) (s.apply _)]
    exact normalize_neg _ _ _ _
  case infinity.infinity => cases s <;> cases t <;> exact .refl _
  case zero.zero => cases s <;> cases t <;> exact .zero _ _
  case infinity.zero => cases s <;> exact .refl _
  case infinity.finite => cases s <;> exact .refl _
  case finite.zero => cases s <;> exact .refl _
  all_goals exact .refl _

/-! ## Floats -/

/-- The sign and the magnitude of a float. -/
def unpacked (a : Float) : UnpackedFloat := a.toModel.unpack

/-- The float that a result is rounded to. -/
def packed (x : UnpackedFloat) : Float := .ofModel (.pack x)

theorem packed_unpacked (a : Float) : packed (unpacked a) = a := by
  obtain ⟨bits, valid⟩ := a
  have same := pack_unpack valid
  simp only [packed, unpacked, Float.Model.pack, Float.Model.unpack]
  congr 2
  exact congrArg UInt64.ofBitVec same

theorem unpacked_packed_neg (x : UnpackedFloat) :
    unpacked (packed x.neg) = (unpacked (packed x)).neg := unpack_pack_neg x

theorem unpacked_neg (a : Float) : unpacked (-a) = (unpacked a).neg := by
  calc unpacked (-a) = unpacked (packed (unpacked a).neg) := rfl
    _ = (unpacked (packed (unpacked a))).neg := unpacked_packed_neg _
    _ = (unpacked a).neg := by rw [packed_unpacked]

theorem packed_neg (x : UnpackedFloat) : packed x.neg = -packed x := by
  rw [← packed_unpacked (packed x.neg), unpacked_packed_neg, ← unpacked_neg, packed_unpacked]

theorem unpacked_packed_zero (s : Sign) : unpacked (packed (.zero s)) = .zero s := by
  cases s <;> rfl

theorem Alike.packed {x y : UnpackedFloat} (h : Alike x y) :
    Alike (unpacked (packed x)) (unpacked (packed y)) :=
  h.congr (f := fun x => unpacked (Binary64.packed x)) fun s t => by
    rw [unpacked_packed_zero, unpacked_packed_zero]
    exact .zero s t

theorem alike_of_compare_eq {x y : UnpackedFloat} (h : x.compare y = some .eq) : Alike x y := by
  have finite {s : Sign} {m n : ℕ} {e d : ℤ} (pos : 0 < m) (pos' : 0 < n)
      (h : (compare e d).then (compare m n) = .eq) : Alike (.finite s m e pos) (.finite s n d pos') := by
    obtain ⟨he, hm⟩ := Ordering.then_eq_eq.mp h
    obtain rfl := compare_eq_iff_eq.mp he
    obtain rfl := compare_eq_iff_eq.mp hm
    exact .refl _
  rcases x with (_ | _) | _ | _ | ⟨_ | _, m, e, pos⟩ <;>
    rcases y with (_ | _) | _ | _ | ⟨_ | _, n, d, pos'⟩
  case zero.zero => exact .zero _ _
  case finite.negative.finite.negative =>
    exact finite pos pos' (Ordering.swap_eq_eq.mp (Option.some.inj h))
  case finite.positive.finite.positive => exact finite pos pos' (Option.some.inj h)
  all_goals first | exact .refl _ | cases h

theorem same_iff (a b : Float) : Same a b ↔ Alike (unpacked a) (unpacked b) := by
  constructor
  · rintro (rfl | equal)
    · exact .refl _
    · exact alike_of_compare_eq (beq_iff_eq.mp equal)
  · rintro (equal | ⟨s, t, ha, hb⟩)
    · rw [← packed_unpacked a, equal, packed_unpacked]
      exact .inl rfl
    · right
      change ((unpacked a).compare (unpacked b) == some .eq) = true
      rw [ha, hb]
      rfl

/-! ## The laws -/

theorem lt_iff (a b : Float) : a < b ↔ (unpacked a).compare (unpacked b) = some .lt :=
  decide_eq_true_iff.trans beq_iff_eq

theorem le_iff (a b : Float) :
    a ≤ b ↔ ((unpacked a).compare (unpacked b)).any (·.isLE) = true :=
  decide_eq_true_iff

/-- Finite numbers compare, in either order. -/
theorem compare_finite {x y : UnpackedFloat} (hx : x.isFinite = true) (hy : y.isFinite = true) :
    ∃ o, x.compare y = some o ∧ y.compare x = some o.swap := by
  have swap (m n : ℕ) (e d : ℤ) : ((compare e d).then (compare m n)).swap =
      (compare d e).then (compare n m) := by
    rw [Ordering.swap_then, ← Std.OrientedCmp.eq_swap, ← Std.OrientedCmp.eq_swap]
  rcases x with _ | _ | _ | ⟨_ | _, m, e, pos⟩ <;> rcases y with _ | _ | _ | ⟨_ | _, n, d, pos'⟩
  case finite.negative.finite.negative =>
    exact ⟨_, rfl, by rw [swap]; rfl⟩
  case finite.positive.finite.positive => exact ⟨_, rfl, by rw [swap]; rfl⟩
  all_goals first
    | exact ⟨_, rfl, rfl⟩
    | exact absurd hx Bool.false_ne_true
    | exact absurd hy Bool.false_ne_true

instance : FiniteOrder Float where
  isFinite_zero := by decide
  not_lt_iff_of_finite {a b} ha hb := by
    obtain ⟨o, forth, back⟩ := compare_finite (x := unpacked a) (y := unpacked b) ha hb
    rw [lt_iff, le_iff, forth, back]
    cases o <;> simp [Ordering.swap, Ordering.isLE]

instance : ExactNegation Float where
  neg_neg a := by
    rw [← packed_unpacked (- -a), unpacked_neg, unpacked_neg, neg_neg_unpacked, packed_unpacked]
  neg_mul a b := by
    change packed (mul .binary64 (unpacked (-a)) (unpacked b)) = -packed _
    rw [unpacked_neg, neg_mul_unpacked, packed_neg]
    rfl
  mul_neg a b := by
    change packed (mul .binary64 (unpacked a) (unpacked (-b))) = -packed _
    rw [unpacked_neg, mul_neg_unpacked, packed_neg]
    rfl
  neg_div a b := by
    change packed (div .binary64 (unpacked (-a)) (unpacked b)) = -packed _
    rw [unpacked_neg, neg_div_unpacked, packed_neg]
    rfl
  abs_neg a := by
    change packed (unpacked (-a)).abs = packed (unpacked a).abs
    rw [unpacked_neg, abs_neg_unpacked]
  neg_zero := .inr (by decide)
  neg_add a b := by
    rw [same_iff, unpacked_neg]
    change Alike (unpacked (packed (add .binary64 (unpacked (-a)) (unpacked (-b)))))
      (unpacked (packed (add .binary64 (unpacked a) (unpacked b)))).neg
    rw [unpacked_neg, unpacked_neg, ← unpacked_packed_neg]
    exact (neg_add_unpacked _ _).packed
  neg_sub a b := by
    rw [same_iff, unpacked_neg]
    change Alike (unpacked (packed (sub .binary64 (unpacked (-a)) (unpacked (-b)))))
      (unpacked (packed (sub .binary64 (unpacked a) (unpacked b)))).neg
    rw [unpacked_neg, unpacked_neg, ← unpacked_packed_neg]
    exact (neg_sub_unpacked _ _).packed
  symm h := (same_iff _ _).mpr ((same_iff _ _).mp h).symm
  trans h h' := (same_iff _ _).mpr (((same_iff _ _).mp h).trans ((same_iff _ _).mp h'))
  abs_congr h := congrArg packed ((same_iff _ _).mp h).abs
  add_left h c := (same_iff _ _).mpr (((same_iff _ _).mp h).add_left (unpacked c)).packed
  sub_left h c := (same_iff _ _).mpr (((same_iff _ _).mp h).sub_left (unpacked c)).packed
  sub_right h c := (same_iff _ _).mpr (((same_iff _ _).mp h).sub_right (unpacked c)).packed
  mul_right h c := (same_iff _ _).mpr (((same_iff _ _).mp h).mul_right (unpacked c)).packed
  div_left h c := (same_iff _ _).mpr (((same_iff _ _).mp h).div_left (unpacked c)).packed
  lt_right h c := by rw [lt_iff, lt_iff, ((same_iff _ _).mp h).compare_right]

instance : SwappedDifference Float where
  sub_swap a b := by
    rw [same_iff, unpacked_neg]
    change Alike (unpacked (packed (sub .binary64 (unpacked a) (unpacked b))))
      (unpacked (packed (sub .binary64 (unpacked b) (unpacked a)))).neg
    rw [← unpacked_packed_neg]
    exact (sub_swap_unpacked _ _).packed

end Allotment.Binary64
