import Allotment.Proofs.Region
import Allotment.Proofs.WholeUnits.Box
import Allotment.WholeUnits.Allocation

/-!
# Whole units of a variable

Which whole numbers the bounds of a variable allow and which of them is nearest to a quantity, said
over the integers. Bounds and quantities of `Moderate` size are held by machine integers with room to
spare, so that rounding, moving into the range and searching around read as they should.
-/

namespace Allotment
set_option autoImplicit false

/-! ## Holding integers to a range -/

/-- An integer that 64 bits hold. -/
def Word (n : ℤ) : Prop := -2 ^ 63 ≤ n ∧ n < 2 ^ 63

instance (n : ℤ) : Decidable (Word n) := inferInstanceAs (Decidable (_ ∧ _))

/-- An integer held to the range of 64 bits. -/
def held (n : ℤ) : ℤ := max (-2 ^ 63) (min n (2 ^ 63 - 1))

theorem held_eq_iff {n : ℤ} : held n = n ↔ Word n := by
  unfold held Word
  omega

theorem held_max (m n : ℤ) : held (max m n) = max (held m) (held n) := by
  unfold held
  omega

theorem held_min (m n : ℤ) : held (min m n) = min (held m) (held n) := by
  unfold held
  omega

theorem toInt_ofIntClamp_eq_held (n : ℤ) : (Int64.ofIntClamp n).toInt = held n := by
  have least : Int64.minValue.toInt = -2 ^ 63 := by decide
  have greatest : Int64.maxValue.toInt = 2 ^ 63 - 1 := by decide
  unfold held
  by_cases low : Int64.minValue.toInt ≤ n
  · by_cases high : n ≤ Int64.maxValue.toInt
    · rw [Int64.toInt_ofIntClamp low high]
      omega
    · rw [Int64.ofIntClamp, dif_pos low, dif_neg high]
      omega
  · rw [Int64.ofIntClamp, dif_neg low]
    omega

/-! ## Moderate sizes -/

/-- Small enough for machine integers, with room to spare. -/
def Moderate (q : ℚ) : Prop := |q| < 2 ^ 62

instance (q : ℚ) : Decidable (Moderate q) := inferInstanceAs (Decidable (|q| < 2 ^ 62))

namespace Variable

/-- A whole number that the bounds of a variable allow. -/
def AllowsUnits (v : Variable ℚ) (n : ℤ) : Prop := ⌈v.lower⌉ ≤ n ∧ ∀ u ∈ v.upper, n ≤ ⌊u⌋

/-- **The whole number of units that a quantity is rounded to**: the nearest one, halves away from
zero, moved into the range of the variable. -/
def nearestUnits (v : Variable ℚ) (q : ℚ) : ℤ :=
  match v.upper with
  | none => max (Scalar.nearestInt q) ⌈v.lower⌉
  | some u => min (max (Scalar.nearestInt q) ⌈v.lower⌉) ⌊u⌋

/-- Bounds of moderate size. -/
structure ModerateBounds (v : Variable ℚ) : Prop where
  lower : Moderate v.lower
  upper : ∀ u ∈ v.upper, Moderate u

instance (v : Variable ℚ) : Decidable v.ModerateBounds :=
  decidable_of_iff (Moderate v.lower ∧ ∀ u ∈ v.upper, Moderate u)
    ⟨fun h => ⟨h.1, h.2⟩, fun h => ⟨h.lower, h.upper⟩⟩

/-- Some whole number is between the bounds. -/
def HasUnits (v : Variable ℚ) : Prop := ∀ u ∈ v.upper, ⌈v.lower⌉ ≤ ⌊u⌋

theorem AllowsUnits.admits {v : Variable ℚ} {n : ℤ} (allows : v.AllowsUnits n) : v.Admits n :=
  ⟨Int.ceil_le.mp allows.1, fun u hu => Int.le_floor.mp (allows.2 u hu)⟩

theorem HasUnits.allows_nearestUnits {v : Variable ℚ} (has : v.HasUnits) (q : ℚ) :
    v.AllowsUnits (v.nearestUnits q) := by
  unfold nearestUnits
  cases hu : v.upper with
  | none => exact ⟨le_max_right _ _, by simp [hu]⟩
  | some u =>
    refine ⟨le_min (le_max_right _ _) (has u hu), fun w hw => ?_⟩
    obtain rfl := Option.some.inj (hu.symm.trans hw)
    exact min_le_right _ _

end Variable

namespace WholeUnits

/-! ## Conversion to machine integers -/

theorem ceil_rat (q : ℚ) : q.ceil = ⌈q⌉ := Rat.ceil_eq_neg_floor_neg q

section Moderate

variable {q : ℚ} (moderate : Moderate q)
include moderate

theorem abs_floor_le : |⌊q⌋| ≤ 2 ^ 62 := by
  obtain ⟨low, high⟩ := abs_lt.mp moderate
  refine abs_le.mpr ⟨Int.le_floor.mpr ?_, Int.floor_le_iff.mpr ?_⟩
  · push_cast
    exact low.le
  · push_cast
    linarith

theorem abs_ceil_le : |⌈q⌉| ≤ 2 ^ 62 := by
  obtain ⟨low, high⟩ := abs_lt.mp moderate
  refine abs_le.mpr ⟨Int.le_ceil_iff.mpr ?_, Int.ceil_le.mpr ?_⟩
  · push_cast
    linarith
  · push_cast
    exact high.le

theorem abs_nearestInt_le : |Scalar.nearestInt q| ≤ 2 ^ 62 := by
  obtain ⟨low, high⟩ := abs_lt.mp moderate
  unfold Scalar.nearestInt
  split
  · next nonneg =>
    change |⌊q + 1 / 2⌋| ≤ _
    refine abs_le.mpr ⟨Int.le_floor.mpr ?_, Int.floor_le_iff.mpr ?_⟩
    · push_cast
      linarith
    · push_cast
      linarith
  · next negative =>
    rw [ceil_rat]
    refine abs_le.mpr ⟨Int.le_ceil_iff.mpr ?_, Int.ceil_le.mpr ?_⟩
    · push_cast
      linarith
    · push_cast
      linarith

end Moderate

theorem toInt_ofIntClamp {n : ℤ} (small : |n| ≤ 2 ^ 62) : (Int64.ofIntClamp n).toInt = n := by
  obtain ⟨low, high⟩ := abs_le.mp small
  rw [toInt_ofIntClamp_eq_held, held_eq_iff]
  exact ⟨by omega, by omega⟩

theorem toInt_ceil {q : ℚ} (moderate : Moderate q) : (Scalar.ceil q).toInt = ⌈q⌉ := by
  change (Int64.ofIntClamp q.ceil).toInt = _
  rw [ceil_rat, toInt_ofIntClamp (abs_ceil_le moderate)]

theorem toInt_floor {q : ℚ} (moderate : Moderate q) : (Scalar.floor q).toInt = ⌊q⌋ :=
  toInt_ofIntClamp (abs_floor_le moderate)

theorem toInt_round {q : ℚ} (moderate : Moderate q) : (Scalar.round q).toInt = Scalar.nearestInt q :=
  toInt_ofIntClamp (abs_nearestInt_le moderate)

namespace UnitRange

/-! ## Ranges -/

section Variable

variable {v : Variable ℚ} (bounds : v.ModerateBounds)
include bounds

theorem isEmpty_eq_false_iff : (ofVariable v).isEmpty = false ↔ v.HasUnits := by
  unfold isEmpty ofVariable Variable.HasUnits
  cases hu : v.upper with
  | none => simp
  | some u =>
    simp only [Option.map_some, decide_eq_false_iff_not, Option.mem_def, Option.some.injEq, forall_eq',
      Int64.lt_iff_toInt_lt, not_lt]
    rw [toInt_ceil bounds.lower, toInt_floor (bounds.upper u hu)]

theorem toInt_clamp {q : ℚ} (moderate : Moderate q) :
    ((ofVariable v).clamp (Scalar.round q)).toInt = v.nearestUnits q := by
  unfold clamp ofVariable Variable.nearestUnits
  cases hu : v.upper with
  | none =>
    simp only [Option.map_none]
    rw [toInt_max, toInt_round moderate, toInt_ceil bounds.lower]
  | some u =>
    simp only [Option.map_some]
    rw [toInt_min, toInt_max, toInt_round moderate, toInt_ceil bounds.lower,
      toInt_floor (bounds.upper u hu)]

/-- A number of units that is allowed is of moderate size if it is not above a rounded quantity and a
lower bound that are. -/
theorem abs_nearestUnits_le {q : ℚ} (moderate : Moderate q) : |v.nearestUnits q| ≤ 2 ^ 62 := by
  have rounded := abs_le.mp (abs_nearestInt_le moderate)
  have lower := abs_le.mp (abs_ceil_le bounds.lower)
  unfold Variable.nearestUnits
  cases hu : v.upper with
  | none => exact abs_le.mpr ⟨by simp only; omega, by simp only; omega⟩
  | some u =>
    have upper := abs_le.mp (abs_floor_le (bounds.upper u hu))
    exact abs_le.mpr ⟨by simp only; omega, by simp only; omega⟩

/-- **The part of a range around one of its numbers**: it is not empty, and its numbers are allowed and
within the radius. -/
theorem around_spec (n radius : Int64) (allows : v.AllowsUnits n.toInt) (small : |n.toInt| ≤ 2 ^ 62)
    (nonneg : 0 ≤ radius.toInt) (short : radius.toInt < 2 ^ 32) :
    ((ofVariable v).around n radius).low ≤ ((ofVariable v).around n radius).high ∧
      ∀ k, ((ofVariable v).around n radius).low ≤ k → k ≤ ((ofVariable v).around n radius).high →
        v.AllowsUnits k.toInt ∧ |k.toInt - n.toInt| ≤ radius.toInt := by
  obtain ⟨low, high⟩ := abs_le.mp small
  have below : (n - radius).toInt = n.toInt - radius.toInt := toInt_sub_of_bounds (by omega) (by omega)
  have above : (n + radius).toInt = n.toInt + radius.toInt := toInt_add_of_bounds (by omega) (by omega)
  have lowEnd : ((ofVariable v).around n radius).low.toInt =
      max (n.toInt - radius.toInt) ⌈v.lower⌉ := by
    rw [← below, ← toInt_ceil bounds.lower]
    exact toInt_max _ _
  simp only [Int64.le_iff_toInt_le, lowEnd]
  have least := allows.1
  cases hu : v.upper with
  | none =>
    have highEnd : ((ofVariable v).around n radius).high.toInt = n.toInt + radius.toInt := by
      rw [← above]
      simp only [around, ofVariable, hu, Option.map_none]
    rw [highEnd]
    refine ⟨by omega, fun k ge le => ⟨⟨by omega, by simp [hu]⟩, abs_le.mpr ⟨by omega, by omega⟩⟩⟩
  | some u =>
    have greatest := allows.2 u hu
    have highEnd : ((ofVariable v).around n radius).high.toInt = min (n.toInt + radius.toInt) ⌊u⌋ := by
      rw [← above, ← toInt_floor (bounds.upper u hu), ← toInt_min]
      simp only [around, ofVariable, hu, Option.map_some]
    rw [highEnd]
    refine ⟨by omega, fun k ge le => ⟨⟨by omega, fun w hw => ?_⟩, abs_le.mpr ⟨by omega, by omega⟩⟩⟩
    obtain rfl := Option.some.inj (hu.symm.trans hw)
    omega

end Variable

end UnitRange

end WholeUnits

end Allotment
