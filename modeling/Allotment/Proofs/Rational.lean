import Mathlib
import Allotment.Program

/-!
# Programs over the exact rationals

Over `ℚ` the operations of `Scalar` are the usual ones, so a list added up from negative zero is
its sum. Points are read in two ways: as the list of quantities of a program, and as a function
from columns to quantities, which has a value for every column of every tableau. `weigh` is the
inner product of a row with a point of the second kind; `dot_eq_weigh` joins the two.
-/

namespace Allotment
set_option autoImplicit false

@[simp] theorem Scalar.abs_rat (x : ℚ) : Scalar.abs x = |x| := by
  simp only [Scalar.abs]
  split
  · next neg => exact (abs_of_neg neg).symm
  · next nonneg => exact (abs_of_nonneg (not_lt.mp nonneg)).symm

theorem positivePart_rat (x : ℚ) : positivePart x = max x 0 := by
  simp only [positivePart]
  split
  · next pos => exact (max_eq_left pos.le).symm
  · next nonpos => exact (max_eq_right (not_lt.mp nonpos)).symm

@[simp] theorem positivePart_of_nonneg {x : ℚ} (h : 0 ≤ x) : positivePart x = x := by
  rw [positivePart_rat, max_eq_left h]

theorem sum_map_filterMap {β γ : Type} (f : β → Option γ) (g : γ → ℚ) (l : List β) :
    ((l.filterMap f).map g).sum = (l.map fun a => ((f a).map g).getD 0).sum := by
  induction l with
  | nil => rfl
  | cons a l ih =>
    rw [List.filterMap_cons, List.map_cons, List.sum_cons, ← ih]
    cases f a with
    | none => simp
    | some b => simp

theorem sum_Ico_eq_range' (z : ℕ → ℚ) (first count : ℕ) :
    ∑ j ∈ Finset.Ico first (first + count), z j = ((List.range' first count).map z).sum := by
  rw [Finset.sum_Ico_eq_sum_range, Nat.add_sub_cancel_left, List.range'_eq_map_range, List.map_map]
  exact (Finset.sum_map_val _ _).symm

/-- A sum over a list, place by place. -/
theorem sum_map_eq_range {β : Type} (g : β → ℚ) (l : List β) :
    (l.map g).sum = ∑ i ∈ Finset.range l.length, ((l[i]?).map g).getD 0 := by
  induction l with
  | nil => simp
  | cons b l ih =>
    rw [List.map_cons, List.sum_cons, ih, List.length_cons, Finset.sum_range_succ', add_comm]
    simp

theorem sum_rat (xs : List ℚ) : sum xs = xs.sum := by
  have step : ∀ (start : ℚ), xs.foldl (· + ·) start = start + xs.sum := by
    induction xs with
    | nil => intro start; simp
    | cons x xs ih => intro start; rw [List.foldl_cons, ih, List.sum_cons]; ring
  rw [sum, step]
  simp

theorem Sense.abs_sign_mul (sense : Sense) (a : ℚ) : |sense.sign * a| = |a| := by
  cases sense <;> simp [Sense.sign]

/-- The inner product of a row and a point over all columns. -/
def weigh (row : List ℚ) (z : ℕ → ℚ) : ℚ := ∑ j ∈ Finset.range row.length, row.getD j 0 * z j

theorem weigh_cons (a : ℚ) (row : List ℚ) (z : ℕ → ℚ) :
    weigh (a :: row) z = a * z 0 + weigh row (fun j => z (j + 1)) := by
  simp only [weigh, List.length_cons]
  rw [Finset.sum_range_succ']
  simp [add_comm]

theorem weigh_append (row rest : List ℚ) (z : ℕ → ℚ) :
    weigh (row ++ rest) z = weigh row z + weigh rest (fun j => z (row.length + j)) := by
  induction row generalizing z with
  | nil => simp [weigh]
  | cons a row ih =>
    rw [List.cons_append, weigh_cons, ih, weigh_cons, add_assoc]
    simp only [List.length_cons, Nat.add_right_comm]

theorem weigh_concat (row : List ℚ) (a : ℚ) (z : ℕ → ℚ) :
    weigh (row ++ [a]) z = weigh row z + a * z row.length := by
  rw [weigh_append, weigh_cons]
  simp [weigh]

theorem weigh_congr {row : List ℚ} {z w : ℕ → ℚ} (h : ∀ j < row.length, z j = w j) :
    weigh row z = weigh row w :=
  Finset.sum_congr rfl fun j hj => by rw [h j (Finset.mem_range.mp hj)]

@[simp] theorem weigh_zero (row : List ℚ) : weigh row 0 = 0 := by
  simp [weigh]

theorem weigh_add (row : List ℚ) (z w : ℕ → ℚ) : weigh row (z + w) = weigh row z + weigh row w := by
  simp only [weigh, Pi.add_apply, mul_add, Finset.sum_add_distrib]

theorem weigh_sub (row : List ℚ) (z w : ℕ → ℚ) : weigh row (z - w) = weigh row z - weigh row w := by
  simp only [weigh, Pi.sub_apply, mul_sub, Finset.sum_sub_distrib]

theorem weigh_smul (row : List ℚ) (c : ℚ) (z : ℕ → ℚ) : weigh row (c • z) = c * weigh row z := by
  simp only [weigh, Pi.smul_apply, smul_eq_mul, Finset.mul_sum]
  exact Finset.sum_congr rfl fun j _ => by ring

theorem weigh_map (row : List ℚ) (f : ℚ → ℚ) (c : ℚ) (hf : ∀ a, f a = c * a) (z : ℕ → ℚ) :
    weigh (row.map f) z = c * weigh row z := by
  have zero : f 0 = 0 := by rw [hf, mul_zero]
  simp only [weigh, List.length_map, Finset.mul_sum]
  apply Finset.sum_congr rfl
  intro j _
  have entry : (row.map f).getD j 0 = f (row.getD j 0) := by
    rw [← zero, List.getD_map, zero]
  rw [entry, hf]
  ring

/-- A row weighed at the point that is one in a single column. -/
theorem weigh_single (row : List ℚ) (j : ℕ) : weigh row (Pi.single j 1) = row.getD j 0 := by
  unfold weigh
  by_cases hj : j < row.length
  · rw [Finset.sum_eq_single_of_mem j (Finset.mem_range.mpr hj)]
    · simp
    · intro k _ hk
      simp [hk]
  · rw [Finset.sum_eq_zero]
    · simp [not_lt.mp hj]
    · intro k hk
      have hkj : k ≠ j := fun e => hj (e ▸ Finset.mem_range.mp hk)
      simp [hkj]

/-- What a row weighs is at most what its coefficients do, where no quantity exceeds a bound. -/
theorem weigh_le_of_abs_le {row : List ℚ} {z : ℕ → ℚ} {bound : ℚ}
    (small : ∀ j < row.length, |z j| ≤ bound) : weigh row z ≤ bound * (row.map fun a => |a|).sum := by
  induction row generalizing z with
  | nil => simp [weigh]
  | cons a row ih =>
    have first : a * z 0 ≤ bound * |a| := by
      calc a * z 0 ≤ |a * z 0| := le_abs_self _
        _ = |z 0| * |a| := by rw [abs_mul, mul_comm]
        _ ≤ bound * |a| := mul_le_mul_of_nonneg_right (small 0 (by simp)) (abs_nonneg a)
    have rest := ih (z := fun j => z (j + 1)) fun j hj => small (j + 1) (by simpa using hj)
    rw [weigh_cons, List.map_cons, List.sum_cons, mul_add]
    exact add_le_add first rest

@[simp] theorem dot_nil_left (point : List ℚ) : dot [] point = 0 := by
  simp [dot, sum_rat]

@[simp] theorem dot_nil_right (row : List ℚ) : dot row [] = 0 := by
  simp [dot, sum_rat]

theorem dot_cons (a : ℚ) (row : List ℚ) (x : ℚ) (point : List ℚ) :
    dot (a :: row) (x :: point) = a * x + dot row point := by
  simp only [dot, sum_rat, List.zipWith_cons_cons, List.sum_cons]

theorem dot_map_zero {β : Type} (row : List ℚ) (l : List β) : dot row (l.map fun _ => 0) = 0 := by
  induction row generalizing l with
  | nil => simp
  | cons a row ih =>
    cases l with
    | nil => simp
    | cons b l => rw [List.map_cons, dot_cons, ih, mul_zero, zero_add]

theorem dot_add (row : List ℚ) {x y : List ℚ} (same : x.length = y.length) :
    dot row (List.zipWith (· + ·) x y) = dot row x + dot row y := by
  induction row generalizing x y with
  | nil => simp
  | cons a row ih =>
    cases x with
    | nil => simp [List.eq_nil_of_length_eq_zero same.symm]
    | cons x xs =>
      obtain ⟨y, ys, rfl⟩ := List.exists_cons_of_length_eq_add_one same.symm
      rw [List.zipWith_cons_cons, dot_cons, dot_cons, dot_cons, ih (Nat.succ.inj same)]
      ring

theorem dot_eq_weigh (row point : List ℚ) : dot row point = weigh row (fun j => point.getD j 0) := by
  induction row generalizing point with
  | nil => simp [weigh]
  | cons a row ih =>
    cases point with
    | nil => simp [weigh]
    | cons x point =>
      rw [weigh_cons, dot_cons, ih]
      simp

end Allotment
