import Allotment.Proofs.Region
import Allotment.Proofs.Simplex.Layout

/-!
# Points of a standard form

A point of the variables `Meets` a standard form when every row relates as it should, its right-hand
side moved by a shift of its own. A solution of the first tableau meets the rows when its slacks are
not negative and its artificials are zero (`meets_of_solves`); a point that meets them extends to the
slacks and surpluses (`lift`) so that each equation misses its right-hand side by the shift of its
row alone (`excess_lift`). With no shift the two are converse to each other.
-/

namespace Allotment.Simplex
set_option autoImplicit false

namespace StandardForm

/-- The rows hold at a point of the variables, each with its right-hand side moved by a shift. -/
def Meets (f : StandardForm ℚ) (shift : ℕ → ℚ) (z : ℕ → ℚ) : Prop :=
  ∀ (i : ℕ) (r : StandardRow ℚ), f.rows[i]? = some r →
    r.relation.Holds (weigh r.coefficients z) (r.rhs + shift i)

/-- No artificial column has a quantity. -/
def Genuine (f : StandardForm ℚ) (z : ℕ → ℚ) : Prop :=
  ∀ j, f.artificialStart ≤ j → j < f.columnCount → z j = 0

/-- How far a point is from the shifted right-hand side of a row. -/
def room (f : StandardForm ℚ) (shift z : ℕ → ℚ) (i : ℕ) : ℚ :=
  ((f.rows[i]?).map fun r => |r.rhs + shift i - weigh r.coefficients z|).getD 0

/-- **A point of the variables, extended to all columns**: each slack or surplus takes the room of
its row, and no artificial is used. -/
def lift (f : StandardForm ℚ) (shift z : ℕ → ℚ) (j : ℕ) : ℚ :=
  if j < f.variableCount then z j
  else ((f.slots.findIdx? (·.slackColumn? == some j)).map (f.room shift z)).getD 0

variable {f : StandardForm ℚ} {shift z : ℕ → ℚ} {i j : ℕ} {r : StandardRow ℚ} {slot : Slot}

theorem room_nonneg : 0 ≤ f.room shift z i := by
  unfold room
  cases f.rows[i]? with
  | none => exact le_rfl
  | some r => exact abs_nonneg _

theorem lift_of_lt (hj : j < f.variableCount) : f.lift shift z j = z j := if_pos hj

theorem lift_slack (hs : f.slots[i]? = some slot) (column : slot.slackColumn? = some j) :
    f.lift shift z j = f.room shift z i := by
  have outside : ¬j < f.variableCount := (slackColumn_bounds (List.mem_of_getElem? hs) column).1.not_gt
  have found : f.slots.findIdx? (·.slackColumn? == some j) = some i := by
    obtain ⟨k, hk⟩ : ∃ k, f.slots.findIdx? (·.slackColumn? == some j) = some k := by
      rw [← Option.isSome_iff_exists, List.findIdx?_isSome, List.any_eq_true]
      exact ⟨slot, List.mem_of_getElem? hs, beq_iff_eq.mpr column⟩
    obtain ⟨inside, here, -⟩ := List.findIdx?_eq_some_iff_getElem.mp hk
    rw [hk, slackColumn_index (List.getElem?_eq_getElem inside) hs (beq_iff_eq.mp here) column]
  rw [lift, if_neg outside, found]
  rfl

theorem lift_of_le (hj : f.artificialStart ≤ j) : f.lift shift z j = 0 := by
  have outside : ¬j < f.variableCount := (variableCount_le.trans hj).not_gt
  have none : f.slots.findIdx? (·.slackColumn? == some j) = none := by
    rw [List.findIdx?_eq_none_iff]
    intro slot hs
    rw [beq_eq_false_iff_ne]
    intro column
    have bounds := slackColumn_bounds hs column
    omega
  rw [lift, if_neg outside, none]
  rfl

theorem lift_genuine : f.Genuine (f.lift shift z) := fun _ hj _ => lift_of_le hj

theorem lift_nonneg (nonneg : ∀ j < f.variableCount, 0 ≤ z j) (j : ℕ) : 0 ≤ f.lift shift z j := by
  unfold lift
  split
  · next hj => exact nonneg j hj
  · cases f.slots.findIdx? (·.slackColumn? == some j) with
    | none => exact le_rfl
    | some i => exact room_nonneg

/-- The columns of a slot at a point that has no negative quantity and no artificial one. -/
theorem relation_of_part (hs : f.slots[i]? = some slot) (nonneg : ∀ j, 0 ≤ z j) (genuine : f.Genuine z) {a b : ℚ}
    (balance : a + slot.part z = b) : slot.relation.Holds a b := by
  have mem := List.mem_of_getElem? hs
  cases slot with
  | slack s =>
    have := nonneg s
    simp only [Slot.part] at balance
    exact (show a ≤ b by linarith)
  | surplus s c =>
    obtain ⟨lo, hi⟩ := artificialColumn_bounds mem rfl
    have := nonneg s
    simp only [Slot.part, genuine c lo hi] at balance
    exact (show b ≤ a by linarith)
  | artificial c =>
    obtain ⟨lo, hi⟩ := artificialColumn_bounds mem rfl
    simp only [Slot.part, genuine c lo hi] at balance
    exact (show a = b by linarith)

section Row

variable (proper : f.Proper) (hr : f.rows[i]? = some r) (hs : f.slots[i]? = some slot)
include proper hr

theorem weigh_lift : weigh r.coefficients (f.lift shift z) = weigh r.coefficients z := by
  refine weigh_congr fun j hj => lift_of_lt ?_
  rwa [proper.rows r (List.mem_of_getElem? hr)] at hj

include hs

/-- **A lifted point misses an equation by the shift of its row.** -/
theorem excess_lift (meets : f.Meets shift z) :
    (f.equation r slot).excess (f.lift shift z) = shift i := by
  have mem := List.mem_of_getElem? hs
  have holds := meets i r hr
  have room : f.room shift z i = |r.rhs + shift i - weigh r.coefficients z| := by
    rw [room, hr]
    rfl
  rw [excess_equation proper (List.mem_of_getElem? hr) mem, weigh_lift proper hr]
  rw [← slot_relation hr hs] at holds
  -- the column that takes the room enters the row with the sign that the relation asks for
  cases slot with
  | slack s =>
    rw [Slot.part, lift_slack hs rfl, room, abs_of_nonneg (sub_nonneg.mpr holds)]
    ring
  | surplus s a =>
    rw [Slot.part, lift_slack hs rfl, lift_of_le (artificialColumn_bounds mem rfl).1, room,
      abs_of_nonpos (sub_nonpos.mpr holds)]
    ring
  | artificial a =>
    rw [Slot.part, lift_of_le (artificialColumn_bounds mem rfl).1]
    linarith [show weigh r.coefficients z = r.rhs + shift i from holds]

end Row

variable (proper : f.Proper)
include proper

/-- **A lifted point solves the first tableau.** -/
theorem solves_lift (meets : f.Meets 0 z) : f.tableau.Solves (f.lift 0 z) := by
  intro q hq
  obtain ⟨i, hi⟩ := List.getElem?_of_mem hq
  obtain ⟨r, slot, hr, hs, rfl⟩ := rows_tableau.mp hi
  exact excess_lift proper hr hs meets

/-- **A solution of the first tableau without negative or artificial quantities meets the rows.** -/
theorem meets_of_solves (solves : f.tableau.Solves z) (nonneg : ∀ j, 0 ≤ z j) (genuine : f.Genuine z) :
    f.Meets 0 z := by
  intro i r hr
  obtain ⟨slot, hs⟩ := exists_slot (List.getElem?_eq_some_iff.mp hr).1
  have balance := (solves_tableau_iff proper z).mp solves i r slot hr hs
  rw [← slot_relation hr hs, Pi.zero_apply, add_zero]
  exact relation_of_part hs nonneg genuine balance

theorem goal_excess_lift : f.goal.excess (f.lift shift z) = weigh f.gains z := by
  rw [excess_goal]
  exact weigh_congr fun j hj => lift_of_lt (proper.gains ▸ hj)

end StandardForm

end Allotment.Simplex
