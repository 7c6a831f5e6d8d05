import Allotment.Proofs.Rational

/-!
# Laws of number systems

`Scalar` asks for no laws. A theorem about every number system in which some law holds names the law
as a class over `Scalar`; the exact rationals are an instance of each, and so is binary64, for which
the laws are proved in `Allotment.Proofs.Binary64`.
-/

namespace Allotment
set_option autoImplicit false

/-- **Finite numbers are ordered**: zero is finite, and of two finite numbers one is at most the other
as soon as it is not greater. -/
class FiniteOrder (α : Type) [Scalar α] : Prop where
  isFinite_zero : Scalar.isFinite (0 : α) = true
  not_lt_iff_of_finite {a b : α} (ha : Scalar.isFinite a = true) (hb : Scalar.isFinite b = true) :
    ¬a < b ↔ b ≤ a

instance : FiniteOrder ℚ where
  isFinite_zero := rfl
  not_lt_iff_of_finite _ _ := not_lt

/-- **The same number**: equal, or at least not told apart by a comparison, as the two zeros of
binary64 are not. -/
def Same {α : Type} [Scalar α] (a b : α) : Prop := a = b ∨ (a == b) = true

/-- **Negation is exact**: it goes through products and quotients as it does over the rationals, and
through sums and differences up to `Same`. What is computed of numbers that are the same is the same,
except for a quotient by them. -/
class ExactNegation (α : Type) [Scalar α] : Prop where
  neg_neg (a : α) : - -a = a
  neg_mul (a b : α) : -a * b = -(a * b)
  mul_neg (a b : α) : a * -b = -(a * b)
  neg_div (a b : α) : -a / b = -(a / b)
  abs_neg (a : α) : Scalar.abs (-a) = Scalar.abs a
  neg_zero : Same (-0 : α) 0
  neg_add (a b : α) : Same (-a + -b) (-(a + b))
  neg_sub (a b : α) : Same (-a - -b) (-(a - b))
  symm {a b : α} (h : Same a b) : Same b a
  trans {a b c : α} (h : Same a b) (h' : Same b c) : Same a c
  abs_congr {a b : α} (h : Same a b) : Scalar.abs a = Scalar.abs b
  add_left {a b : α} (h : Same a b) (c : α) : Same (a + c) (b + c)
  sub_left {a b : α} (h : Same a b) (c : α) : Same (a - c) (b - c)
  sub_right {a b : α} (h : Same a b) (c : α) : Same (c - a) (c - b)
  mul_right {a b : α} (h : Same a b) (c : α) : Same (c * a) (c * b)
  div_left {a b : α} (h : Same a b) (c : α) : Same (a / c) (b / c)
  lt_right {a b : α} (h : Same a b) (c : α) : c < a ↔ c < b

@[simp] theorem same_rat (a b : ℚ) : Same a b ↔ a = b :=
  ⟨fun h => h.elim id eq_of_beq, Or.inl⟩

instance : ExactNegation ℚ where
  neg_neg := neg_neg
  neg_mul := neg_mul
  mul_neg := mul_neg
  neg_div a b := neg_div b a
  abs_neg a := by simp
  neg_zero := (same_rat _ _).mpr neg_zero
  neg_add a b := (same_rat _ _).mpr (neg_add a b).symm
  neg_sub a b := (same_rat _ _).mpr (neg_sub' a b).symm
  symm h := by simpa [eq_comm] using h
  trans h h' := by simp_all
  abs_congr h := by rw [(same_rat _ _).mp h]
  add_left h c := by rw [(same_rat _ _).mp h]; exact .inl rfl
  sub_left h c := by rw [(same_rat _ _).mp h]; exact .inl rfl
  sub_right h c := by rw [(same_rat _ _).mp h]; exact .inl rfl
  mul_right h c := by rw [(same_rat _ _).mp h]; exact .inl rfl
  div_left h c := by rw [(same_rat _ _).mp h]; exact .inl rfl
  lt_right h c := by rw [(same_rat _ _).mp h]

/-- **A difference is negated when its sides are exchanged**, up to `Same`. -/
class SwappedDifference (α : Type) [Scalar α] : Prop where
  sub_swap (a b : α) : Same (a - b) (-(b - a))

instance : SwappedDifference ℚ where
  sub_swap a b := (same_rat _ _).mpr (neg_sub b a).symm

/-- **Zero and one change nothing**: one is neutral for products, and a zero of any sign is for sums, at
least up to `Same`. Zero percent of anything is a zero. -/
class NeutralUnits (α : Type) [Scalar α] : Prop where
  mul_one (a : α) : a * 1 = a
  one_add {z : α} (zero : (z == 0) = true) : 1 + z = 1
  add_zero {z : α} (zero : (z == 0) = true) (a : α) : Same (a + z) a
  percent {z : α} (zero : (z == 0) = true) : (z / 100.0 == 0) = true
  mul_left {a b : α} (h : Same a b) (c : α) : Same (a * c) (b * c)
  isFinite_congr {a b : α} (h : Same a b) : Scalar.isFinite a = Scalar.isFinite b

instance : NeutralUnits ℚ where
  mul_one := mul_one
  one_add zero := by rw [eq_of_beq zero]; exact add_zero 1
  add_zero zero a := by rw [eq_of_beq zero]; exact .inl (add_zero a)
  percent zero := by rw [eq_of_beq zero]; decide +kernel
  mul_left h c := by rw [(same_rat _ _).mp h]; exact .inl rfl
  isFinite_congr _ := rfl

end Allotment
