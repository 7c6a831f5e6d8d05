import Allotment.Proofs.Simplex.Ready

/-!
# Dual values of the rows

The dual value of a row is read off the objective line in the unit column of the row, negated. At a
point that misses the equations by a shift each, the objective of any later tableau is off by the
shifts priced at the dual values (`goal_excess_shifted`), so at an optimum these bound what moving the
right-hand sides can gain (`weigh_gains_shifted_le`). They have the sign of the relation of their
row, and a row whose dual value is not zero holds with equality at the vertex.
-/

namespace Allotment.Simplex
set_option autoImplicit false

namespace StandardForm

/-- The unit column of a row. -/
def unitColumn (f : StandardForm ℚ) (i : ℕ) : ℕ := ((f.slots[i]?).map Slot.unit).getD 0

/-- **The dual value of a row**: what a tableau's objective gains per unit of its right-hand side. -/
def rowDual (f : StandardForm ℚ) (t : Tableau ℚ) (i : ℕ) : ℚ := -t.goal.entry (f.unitColumn i)

variable {f : StandardForm ℚ} {t : Tableau ℚ} {i : ℕ} {r : StandardRow ℚ} {slot : Slot}

theorem unitColumn_eq (hs : f.slots[i]? = some slot) : f.unitColumn i = slot.unit := by
  rw [unitColumn, hs]
  rfl

/-- The point that makes up for the shifts of the rows in their unit columns. -/
def correction (f : StandardForm ℚ) (shift : ℕ → ℚ) : ℕ → ℚ :=
  ∑ k ∈ Finset.range f.rows.length, -shift k • Pi.single (f.unitColumn k) 1

theorem lhs_correction (l : Line ℚ) (shift : ℕ → ℚ) : l.lhs (f.correction shift) =
    -∑ k ∈ Finset.range f.rows.length, shift k * l.entry (f.unitColumn k) := by
  rw [correction, Line.lhs_sum, ← Finset.sum_neg_distrib]
  apply Finset.sum_congr rfl
  intro k _
  rw [Line.lhs_single, neg_mul]

section Proper

variable (proper : f.Proper)
include proper

/-- An equation sees the correction of its own shift only. -/
theorem lhs_equation_correction (hr : f.rows[i]? = some r) (hs : f.slots[i]? = some slot)
    (shift : ℕ → ℚ) : (f.equation r slot).lhs (f.correction shift) = -shift i := by
  have mem := List.mem_of_getElem? hr
  obtain ⟨inside, -⟩ := List.getElem?_eq_some_iff.mp hr
  rw [lhs_correction, Finset.sum_eq_single_of_mem i (Finset.mem_range.mpr inside)]
  · obtain ⟨lo, hi⟩ := unit_bounds (List.mem_of_getElem? hs)
    rw [unitColumn_eq hs]
    change -(shift i * (f.equation r slot).entry slot.unit) = _
    rw [entry_equation_of_le proper mem lo hi, entry_unit hs hs, if_pos rfl, mul_one]
  · intro k hk differ
    obtain ⟨other, ho⟩ := exists_slot (Finset.mem_range.mp hk)
    obtain ⟨lo, hi⟩ := unit_bounds (List.mem_of_getElem? ho)
    rw [unitColumn_eq ho]
    change shift k * (f.equation r slot).entry other.unit = 0
    rw [entry_equation_of_le proper mem lo hi, entry_unit hs ho, if_neg differ.symm, mul_zero]

/-- **Corrected in the unit columns, a point that misses the equations by a shift each is a solution.** -/
theorem solves_add_correction {shift w : ℕ → ℚ} (misses : ∀ (i : ℕ) (r : StandardRow ℚ) (slot : Slot),
      f.rows[i]? = some r → f.slots[i]? = some slot → (f.equation r slot).excess w = shift i) :
    f.tableau.Solves (w + f.correction shift) := by
  intro q hq
  obtain ⟨i, hi⟩ := List.getElem?_of_mem hq
  obtain ⟨r, slot, hr, hs, rfl⟩ := rows_tableau.mp hi
  rw [Line.excess_add_point, misses i r slot hr hs, lhs_equation_correction proper hr hs, add_neg_cancel]

/-- **The objective at a point that misses the equations by a shift each.** -/
theorem goal_excess_shifted (equivalent : t.Equivalent f.tableau) {shift w : ℕ → ℚ}
    (misses : ∀ (i : ℕ) (r : StandardRow ℚ) (slot : Slot), f.rows[i]? = some r → f.slots[i]? = some slot →
      (f.equation r slot).excess w = shift i) :
    f.goal.excess w = t.goal.excess w + ∑ k ∈ Finset.range f.rows.length, shift k * f.rowDual t k := by
  -- the corrected point is a solution, and there the two objectives agree
  have goal := equivalent.goal_eq _ (solves_add_correction proper misses)
  have clear : f.goal.lhs (f.correction shift) = 0 := by
    rw [lhs_correction, neg_eq_zero]
    apply Finset.sum_eq_zero
    intro k hk
    obtain ⟨slot, hs⟩ := exists_slot (Finset.mem_range.mp hk)
    rw [unitColumn_eq hs, entry_goal_of_le proper (unit_bounds (List.mem_of_getElem? hs)).1, mul_zero]
  rw [Line.excess_add_point, Line.excess_add_point, lhs_correction] at goal
  change _ = f.goal.excess w + f.goal.lhs (f.correction shift) at goal
  rw [clear, add_zero] at goal
  rw [← goal, ← Finset.sum_neg_distrib]
  refine congrArg _ (Finset.sum_congr rfl fun k _ => ?_)
  unfold rowDual
  ring

omit proper in
/-- The direction of one unit of the surplus column of a row and one of its artificial column. -/
theorem lhs_surplus_pair (l : Line ℚ) (s a : ℕ) :
    l.lhs (Pi.single s 1 + Pi.single a 1) = l.entry s + l.entry a := by
  rw [Line.lhs_add, Line.lhs_single, Line.lhs_single]

/-- **No equation sees the surplus and the artificial column of a row together.** -/
theorem lhs_surplus_pair_eq_zero {s a : ℕ} (hs : f.slots[i]? = some (.surplus s a)) {q : Row ℚ}
    (hq : q ∈ f.tableau.rows) : q.lhs (Pi.single s 1 + Pi.single a 1) = 0 := by
  have mem := List.mem_of_getElem? hs
  have slack := slackColumn_bounds mem rfl
  have artificial := artificialColumn_bounds mem rfl
  have after : f.variableCount ≤ a := variableCount_le.trans artificial.1
  have before : s < f.columnCount := slack.2.trans_le artificialStart_le
  obtain ⟨k, hk⟩ := List.getElem?_of_mem hq
  obtain ⟨r, slot, hr, hslot, rfl⟩ := rows_tableau.mp hk
  have row := List.mem_of_getElem? hr
  rw [lhs_surplus_pair]
  change (f.equation r slot).entry s + (f.equation r slot).entry a = 0
  rw [entry_equation_of_le proper row slack.1 before, entry_equation_of_le proper row after artificial.2]
  by_cases own : k = i
  · subst own
    obtain rfl := Option.some.inj (hslot.symm.trans hs)
    have apart : a ≠ s := by omega
    simp [Slot.entry, apart]
  · rw [entry_slackColumn hslot hs own rfl, zero_add]
    exact (entry_unit hslot hs).trans (if_neg own)

/-- The surplus column of a row gains the opposite of what its artificial column does. -/
theorem entry_surplus (equivalent : t.Equivalent f.tableau) {s a : ℕ}
    (hs : f.slots[i]? = some (.surplus s a)) : t.goal.entry s = -t.goal.entry a := by
  have mem := List.mem_of_getElem? hs
  have slack := slackColumn_bounds mem rfl
  have after := variableCount_le.trans (artificialColumn_bounds mem rfl).1
  have same := equivalent.symm.goal_lhs_eq (tableau_canonical proper) fun q hq =>
    lhs_surplus_pair_eq_zero proper hs hq
  rw [lhs_surplus_pair, lhs_surplus_pair] at same
  change f.goal.entry s + f.goal.entry a = _ at same
  rw [entry_goal_of_le proper slack.1, entry_goal_of_le proper after] at same
  linarith

/-- **Relaxing an inequality is priced no lower than what a column may still gain**, negated. -/
theorem neg_le_rowDual (equivalent : t.Equivalent f.tableau) {tolerance : ℚ}
    (loses : ∀ j < f.artificialStart, t.goal.entry j ≤ tolerance) (hr : f.rows[i]? = some r)
    (inequality : r.relation ≠ .equal) : -tolerance ≤ r.relation.relaxationSign * f.rowDual t i := by
  obtain ⟨slot, hs⟩ := exists_slot (List.getElem?_eq_some_iff.mp hr).1
  have mem := List.mem_of_getElem? hs
  rw [rowDual, unitColumn_eq hs]
  rw [← slot_relation hr hs] at inequality ⊢
  cases slot with
  | slack s =>
    have gain := loses s (slackColumn_bounds mem rfl).2
    simp only [Slot.relation, Slot.unit, Relation.relaxationSign]
    linarith
  | surplus s a =>
    have gain := loses s (slackColumn_bounds mem rfl).2
    rw [entry_surplus proper equivalent hs] at gain
    simp only [Slot.relation, Slot.unit, Relation.relaxationSign]
    linarith
  | artificial a => exact absurd rfl inequality

end Proper

namespace Ready

variable (ready : f.Ready t) (proper : f.Proper)
include ready proper

/-- **The dual values price moves of the right-hand sides**: whoever meets the moved rows gains no
more over the vertex than the moves are priced at. -/
theorem weigh_gains_shifted_le (loses : ∀ j < f.artificialStart, t.goal.entry j ≤ 0) {shift z : ℕ → ℚ}
    (nonneg : ∀ j < f.variableCount, 0 ≤ z j) (meets : f.Meets shift z) :
    weigh f.gains z ≤ weigh f.gains t.vertex +
      ∑ k ∈ Finset.range f.rows.length, shift k * f.rowDual t k := by
  have lifted := goal_excess_shifted proper ready.sound.equivalent fun i r slot hr hs =>
    excess_lift proper hr hs meets
  have bound := ready.sound.canonical.goal_excess_le (z := f.lift shift z) fun j hj => by
    by_cases artificial : f.artificialStart ≤ j
    · rw [lift_of_le artificial, mul_zero]
    · exact mul_nonpos_of_nonpos_of_nonneg (loses j (not_le.mp artificial)) (lift_nonneg nonneg j)
  rw [goal_excess_lift proper] at lifted
  rw [lifted, ready.weigh_gains_vertex]
  linarith

/-- **Where no column gains, no point that meets the rows gains more than the vertex.** -/
theorem weigh_gains_le (loses : ∀ j < f.artificialStart, t.goal.entry j ≤ 0) {z : ℕ → ℚ}
    (nonneg : ∀ j < f.variableCount, 0 ≤ z j) (meets : f.Meets 0 z) :
    weigh f.gains z ≤ weigh f.gains t.vertex := by
  have bound := ready.weigh_gains_shifted_le proper loses nonneg meets
  simpa using bound

/-- **Relaxing an inequality never has a negative price.** -/
theorem rowDual_nonneg (loses : ∀ j < f.artificialStart, t.goal.entry j ≤ 0)
    (hr : f.rows[i]? = some r) (inequality : r.relation ≠ .equal) :
    0 ≤ r.relation.relaxationSign * f.rowDual t i := by
  have bound := neg_le_rowDual proper ready.sound.equivalent loses hr inequality
  rwa [neg_zero] at bound

/-- **A row with a price has no room left** at the vertex. -/
theorem tight_of_rowDual_ne_zero (hr : f.rows[i]? = some r) (priced : f.rowDual t i ≠ 0) :
    weigh r.coefficients t.vertex = r.rhs := by
  obtain ⟨slot, hs⟩ := exists_slot (List.getElem?_eq_some_iff.mp hr).1
  have mem := List.mem_of_getElem? hs
  have balance := (solves_tableau_iff proper _).mp ready.solves_vertex i r slot hr hs
  have unused : ∀ j, t.goal.entry j ≠ 0 → t.vertex j = 0 := fun j gains =>
    Tableau.vertex_of_not_mem fun basic => gains (ready.sound.canonical.goal_of_mem basic)
  rw [rowDual, unitColumn_eq hs, neg_ne_zero] at priced
  have part : slot.part t.vertex = 0 := by
    cases slot with
    | slack s => exact unused s priced
    | surplus s a =>
      have artificial := artificialColumn_bounds mem rfl
      have gains : t.goal.entry s ≠ 0 := by
        rw [entry_surplus proper ready.sound.equivalent hs]
        exact neg_ne_zero.mpr priced
      rw [Slot.part, unused s gains, ready.genuine_vertex a artificial.1 artificial.2, sub_zero]
    | artificial a =>
      have artificial := artificialColumn_bounds mem rfl
      exact ready.genuine_vertex a artificial.1 artificial.2
  rwa [part, add_zero] at balance

end Ready

end StandardForm

end Allotment.Simplex
