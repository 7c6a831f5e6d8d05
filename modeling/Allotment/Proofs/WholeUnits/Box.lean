import Mathlib
import Allotment.WholeUnits.Box

/-!
# Walks stay in their box

A walk starts at the low corner of a box and goes from a point to the next one, so every point that it
visits is inside the box. Machine integers are compared and added through the integers they stand
for; a coordinate is raised only below the high end of its side, so it never overflows.
-/

namespace Allotment.WholeUnits
set_option autoImplicit false

/-! ## Machine integers -/

theorem toInt_max (a b : Int64) : (max a b).toInt = max a.toInt b.toInt := by
  change (if a ≤ b then b else a).toInt = _
  split
  · next le => exact (max_eq_right (Int64.le_iff_toInt_le.mp le)).symm
  · next not => exact (max_eq_left (not_le.mp fun le => not (Int64.le_iff_toInt_le.mpr le)).le).symm

theorem toInt_min (a b : Int64) : (min a b).toInt = min a.toInt b.toInt := by
  change (if a ≤ b then a else b).toInt = _
  split
  · next le => exact (min_eq_left (Int64.le_iff_toInt_le.mp le)).symm
  · next not => exact (min_eq_right (not_le.mp fun le => not (Int64.le_iff_toInt_le.mpr le)).le).symm

theorem toInt_add_of_bounds {a b : Int64} (low : -2 ^ 63 ≤ a.toInt + b.toInt)
    (high : a.toInt + b.toInt < 2 ^ 63) : (a + b).toInt = a.toInt + b.toInt := by
  rw [Int64.toInt_add, Int.bmod_eq_emod]
  split <;> omega

theorem toInt_sub_of_bounds {a b : Int64} (low : -2 ^ 63 ≤ a.toInt - b.toInt)
    (high : a.toInt - b.toInt < 2 ^ 63) : (a - b).toInt = a.toInt - b.toInt := by
  rw [Int64.toInt_sub, Int.bmod_eq_emod]
  split <;> omega

/-- Machine integers hold every radius. -/
theorem toInt_radius (radius : UInt32) : (Int64.ofNat radius.toNat).toInt = radius.toNat :=
  Int64.toInt_ofNat_of_lt (radius.toNat_lt.trans (by norm_num))

/-- Below another number there is room for one more. -/
theorem toInt_succ_of_lt {a b : Int64} (lt : a < b) : (a + 1).toInt = a.toInt + 1 := by
  have below := Int64.lt_iff_toInt_lt.mp lt
  have least := a.le_toInt
  have greatest := b.toInt_lt
  have one : (1 : Int64).toInt = 1 := by decide
  rw [toInt_add_of_bounds] <;> rw [one] <;> omega

namespace Box

/-- **A point inside a box**: each coordinate between the two ends of its side. -/
def Inside (box : Box) (x : List Int64) : Prop :=
  List.Forall₂ (fun (side : Side) n => side.low ≤ n ∧ n ≤ side.high) box x

theorem inside_corner {box : Box} (ordered : ∀ side ∈ box, side.low ≤ side.high) :
    box.Inside box.corner := by
  induction box with
  | nil => exact .nil
  | cons side sides ih =>
    obtain ⟨first, rest⟩ := List.forall_mem_cons.mp ordered
    exact .cons ⟨Int64.le_refl _, first⟩ (ih rest)

/-- **The next point is inside as well.** -/
theorem Inside.next {box : Box} {x y : List Int64} (inside : box.Inside x) (h : next? box x = some y) :
    box.Inside y := by
  induction inside generalizing y with
  | nil => cases h
  | @cons side n sides xs bounds rest ih =>
    unfold Box.next? at h
    split at h
    · next more =>
      obtain rfl := Option.some.inj h
      -- this coordinate is raised, and it was below its high end
      refine .cons ⟨?_, ?_⟩ rest
      · have low := Int64.le_iff_toInt_le.mp bounds.1
        rw [Int64.le_iff_toInt_le, toInt_succ_of_lt more]
        omega
      · have below := Int64.lt_iff_toInt_lt.mp more
        rw [Int64.le_iff_toInt_le, toInt_succ_of_lt more]
        omega
    · -- this coordinate starts again, and a later one is raised
      obtain ⟨ys, next, rfl⟩ := Option.map_eq_some_iff.mp h
      exact .cons ⟨Int64.le_refl _, Int64.le_trans bounds.1 bounds.2⟩ (ih next)

/-- **Every point of a walk is inside the box.** -/
theorem Inside.forall_pointsFrom {box : Box} {x : List Int64} (inside : box.Inside x) (cap : ℕ) :
    ∀ y ∈ pointsFrom box cap x, box.Inside y := by
  induction cap generalizing x with
  | zero => exact fun y mem => absurd mem List.not_mem_nil
  | succ cap ih =>
    intro y mem
    unfold Box.pointsFrom at mem
    obtain rfl | later := List.mem_cons.mp mem
    · exact inside
    · cases next : next? box x with
      | none =>
        rw [next] at later
        exact absurd later List.not_mem_nil
      | some z =>
        rw [next] at later
        exact ih (inside.next next) y later

end Box

end Allotment.WholeUnits
