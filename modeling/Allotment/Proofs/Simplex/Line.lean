import Allotment.Proofs.Rational
import Allotment.Simplex.Tableau

/-!
# Lines as linear functions

A line is a linear expression with the value it is to have. At a point its `excess` is the value
of the expression less the value it is to have: an equation holds where its excess is zero, and
the excess of the objective line is the objective. Dividing, adding, subtracting and clearing do
to the excess what they do to the line, for lines of one width.
-/

namespace Allotment.Simplex
set_option autoImplicit false

namespace Line

/-- The value of the expression of a line at a point. -/
def lhs (l : Line ℚ) (z : ℕ → ℚ) : ℚ := weigh l.entries z

/-- The value of a line's expression less the value it is to have. -/
def excess (l : Line ℚ) (z : ℕ → ℚ) : ℚ := l.lhs z - l.rhs

@[simp] theorem lhs_zero (l : Line ℚ) : l.lhs 0 = 0 := weigh_zero _

theorem lhs_add (l : Line ℚ) (z w : ℕ → ℚ) : l.lhs (z + w) = l.lhs z + l.lhs w := weigh_add _ z w

theorem lhs_smul (l : Line ℚ) (c : ℚ) (z : ℕ → ℚ) : l.lhs (c • z) = c * l.lhs z := weigh_smul _ c z

theorem lhs_sum (l : Line ℚ) (indices : Finset ℕ) (c : ℕ → ℚ) (z : ℕ → ℕ → ℚ) :
    l.lhs (∑ i ∈ indices, c i • z i) = ∑ i ∈ indices, c i * l.lhs (z i) := by
  induction indices using Finset.induction_on with
  | empty => simp
  | insert i rest fresh ih =>
    rw [Finset.sum_insert fresh, Finset.sum_insert fresh, lhs_add, lhs_smul, ih]

theorem lhs_single (l : Line ℚ) (j : ℕ) : l.lhs (Pi.single j 1) = l.entry j := weigh_single _ j

theorem excess_add_point (l : Line ℚ) (z w : ℕ → ℚ) : l.excess (z + w) = l.excess z + l.lhs w := by
  simp only [excess, lhs_add]
  ring

theorem entry_of_width_le {l : Line ℚ} {j : ℕ} (h : l.entries.length ≤ j) : l.entry j = 0 := by
  simp [entry, h]

theorem lhs_eq_sum {l : Line ℚ} {n : ℕ} (width : l.entries.length = n) (z : ℕ → ℚ) :
    l.lhs z = ∑ j ∈ Finset.range n, l.entry j * z j := by
  rw [lhs, weigh, width]
  rfl

/-! ## Widths, over every number system -/

section Width

variable {α : Type} [Scalar α] {l m : Line α}

@[simp] theorem width_divide (l : Line α) (d : α) : (l.divide d).entries.length = l.entries.length := by
  simp [divide]

variable (same : l.entries.length = m.entries.length)
include same

theorem width_add : (l.add m).entries.length = l.entries.length := by
  simp [add, same]

theorem width_subtract (f : α) : (l.subtract f m).entries.length = l.entries.length := by
  simp [subtract, same]

theorem width_clear (column : ℕ) : (l.clear column m).entries.length = l.entries.length := by
  simp only [clear]
  split
  · rfl
  · exact width_subtract same _

end Width

section Divide

variable (l : Line ℚ) (d : ℚ)

theorem entry_divide (j : ℕ) : (l.divide d).entry j = l.entry j / d := by
  simp only [entry, divide]
  by_cases hj : j < l.entries.length
  · simp [hj]
  · simp [not_lt.mp hj]

theorem lhs_divide (z : ℕ → ℚ) : (l.divide d).lhs z = l.lhs z / d := by
  rw [lhs, divide, weigh_map _ _ d⁻¹ (fun a => by rw [div_eq_inv_mul]), lhs, div_eq_inv_mul]

theorem excess_divide (z : ℕ → ℚ) : (l.divide d).excess z = l.excess z / d := by
  rw [excess, lhs_divide, excess, sub_div]
  rfl

end Divide

section Combine

variable {l m : Line ℚ} (same : l.entries.length = m.entries.length)
include same

theorem entry_subtract (f : ℚ) (j : ℕ) : (l.subtract f m).entry j = l.entry j - f * m.entry j := by
  simp only [entry, subtract]
  by_cases hj : j < l.entries.length
  · have hm : j < m.entries.length := same ▸ hj
    simp [hj, hm]
  · have hm : m.entries.length ≤ j := same ▸ not_lt.mp hj
    simp [not_lt.mp hj, hm]

theorem lhs_subtract (f : ℚ) (z : ℕ → ℚ) : (l.subtract f m).lhs z = l.lhs z - f * m.lhs z := by
  rw [lhs_eq_sum (width_subtract same f), lhs_eq_sum rfl, lhs_eq_sum same.symm, Finset.mul_sum,
    ← Finset.sum_sub_distrib]
  apply Finset.sum_congr rfl
  intro j _
  rw [entry_subtract same]
  ring

theorem excess_subtract (f : ℚ) (z : ℕ → ℚ) :
    (l.subtract f m).excess z = l.excess z - f * m.excess z := by
  rw [excess, lhs_subtract same, excess, excess]
  simp only [subtract]
  ring

theorem entry_add (j : ℕ) : (l.add m).entry j = l.entry j + m.entry j := by
  simp only [entry, add]
  by_cases hj : j < l.entries.length
  · have hm : j < m.entries.length := same ▸ hj
    simp [hj, hm]
  · have hm : m.entries.length ≤ j := same ▸ not_lt.mp hj
    simp [not_lt.mp hj, hm]

theorem excess_add (z : ℕ → ℚ) : (l.add m).excess z = l.excess z + m.excess z := by
  have lhs_eq : (l.add m).lhs z = l.lhs z + m.lhs z := by
    rw [lhs_eq_sum (width_add same), lhs_eq_sum rfl, lhs_eq_sum same.symm, ← Finset.sum_add_distrib]
    apply Finset.sum_congr rfl
    intro j _
    rw [entry_add same]
    ring
  rw [excess, lhs_eq, excess, excess]
  simp only [add]
  ring

/-! Clearing a column is subtracting, also where the line is clear already. -/

theorem entry_clear (column j : ℕ) :
    (l.clear column m).entry j = l.entry j - l.entry column * m.entry j := by
  simp only [clear]
  split
  · next zero => rw [beq_iff_eq.mp zero]; ring
  · exact entry_subtract same _ j

omit same in
theorem rhs_clear (column : ℕ) : (l.clear column m).rhs = l.rhs - l.entry column * m.rhs := by
  simp only [clear]
  split
  · next zero => rw [beq_iff_eq.mp zero]; ring
  · rfl

theorem excess_clear (column : ℕ) (z : ℕ → ℚ) :
    (l.clear column m).excess z = l.excess z - l.entry column * m.excess z := by
  simp only [clear]
  split
  · next zero => rw [beq_iff_eq.mp zero]; ring
  · exact excess_subtract same _ z

end Combine

end Line

end Allotment.Simplex
