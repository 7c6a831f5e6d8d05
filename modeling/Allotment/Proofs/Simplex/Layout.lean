import Allotment.Proofs.Simplex.Canonical
import Allotment.Proofs.Simplex.Slots

/-!
# The first tableau

The first tableau of a standard form is canonical and feasible, and a point solves it when every row
of the form, together with the part of its slot, has its right-hand side (`solves_tableau_iff`). The
objective line weighs the columns of the variables only.
-/

namespace Allotment.Simplex
set_option autoImplicit false

namespace StandardForm

/-- One coefficient per variable everywhere, and no right-hand side that is negative. -/
structure Proper (f : StandardForm ℚ) : Prop where
  rows : ∀ r ∈ f.rows, r.coefficients.length = f.variableCount
  rhs : ∀ r ∈ f.rows, 0 ≤ r.rhs
  gains : f.gains.length = f.variableCount

section Slots

variable {α : Type} {f : StandardForm α} {i k : ℕ} {r : StandardRow α} {slot : Slot}

theorem variableCount_le : f.variableCount ≤ f.artificialStart := Nat.le_add_right _ _

theorem artificialStart_le : f.artificialStart ≤ f.columnCount := Nat.le_add_right _ _

theorem columnCount_eq :
    f.columnCount = f.variableCount + (f.slackCount + f.artificialCount) := Nat.add_assoc _ _ _

/-! ## Slots -/

theorem length_slots : f.slots.length = f.rows.length := by
  rw [slots, Slot.length_assign, List.length_map]

theorem exists_slot (inside : i < f.rows.length) : ∃ slot, f.slots[i]? = some slot :=
  ⟨_, List.getElem?_eq_getElem (length_slots ▸ inside)⟩

theorem slot_relation (hr : f.rows[i]? = some r) (hs : f.slots[i]? = some slot) :
    slot.relation = r.relation := by
  have same := congrArg (·[i]?)
    (Slot.relation_assign f.variableCount f.artificialStart (f.rows.map (·.relation)))
  simp only [List.getElem?_map, hr, Option.map_some] at same
  rw [show (Slot.assign f.variableCount f.artificialStart (f.rows.map (·.relation)))[i]? = some slot
    from hs] at same
  exact Option.some.inj same

theorem slackColumns_slots :
    f.slots.filterMap Slot.slackColumn? = List.range' f.variableCount f.slackCount := by
  rw [slots, Slot.slackColumns_assign, List.countP_map]
  rfl

theorem artificialColumns_slots :
    f.slots.filterMap Slot.artificialColumn? = List.range' f.artificialStart f.artificialCount := by
  rw [slots, Slot.artificialColumns_assign, List.countP_map]
  rfl

theorem slackColumn_bounds (hs : slot ∈ f.slots) {s : ℕ} (column : slot.slackColumn? = some s) :
    f.variableCount ≤ s ∧ s < f.artificialStart := by
  have mem : s ∈ f.slots.filterMap Slot.slackColumn? := List.mem_filterMap.mpr ⟨slot, hs, column⟩
  rwa [slackColumns_slots, List.mem_range'_1] at mem

theorem artificialColumn_bounds (hs : slot ∈ f.slots) {a : ℕ}
    (column : slot.artificialColumn? = some a) : f.artificialStart ≤ a ∧ a < f.columnCount := by
  have mem : a ∈ f.slots.filterMap Slot.artificialColumn? := List.mem_filterMap.mpr ⟨slot, hs, column⟩
  rwa [artificialColumns_slots, List.mem_range'_1] at mem

theorem within_slot (hs : slot ∈ f.slots) :
    slot.Within f.variableCount f.artificialStart f.columnCount := by
  cases slot with
  | slack s => exact slackColumn_bounds hs rfl
  | surplus s a =>
    obtain ⟨lo, hi⟩ := slackColumn_bounds hs rfl
    obtain ⟨lo', hi'⟩ := artificialColumn_bounds hs rfl
    exact ⟨lo, hi, lo', hi'⟩
  | artificial a => exact artificialColumn_bounds hs rfl

theorem unit_bounds (hs : slot ∈ f.slots) : f.variableCount ≤ slot.unit ∧ slot.unit < f.columnCount := by
  have within := within_slot hs
  have low : f.variableCount ≤ f.artificialStart := variableCount_le
  have high : f.artificialStart ≤ f.columnCount := artificialStart_le
  cases slot <;> simp only [Slot.Within] at within <;> simp only [Slot.unit] <;> omega

theorem slackColumn_index {a b : Slot} {j : ℕ} (ha : f.slots[i]? = some a) (hb : f.slots[k]? = some b)
    (fa : a.slackColumn? = some j) (fb : b.slackColumn? = some j) : i = k :=
  Slot.index_eq_of_nodup (slackColumns_slots (f := f) ▸ List.nodup_range') ha hb fa fb

theorem artificialColumn_index {a b : Slot} {j : ℕ} (ha : f.slots[i]? = some a)
    (hb : f.slots[k]? = some b) (fa : a.artificialColumn? = some j)
    (fb : b.artificialColumn? = some j) : i = k :=
  Slot.index_eq_of_nodup (artificialColumns_slots (f := f) ▸ List.nodup_range') ha hb fa fb

theorem unit_ne_slackColumn {a b : Slot} {s : ℕ} (ha : f.slots[i]? = some a) (hb : f.slots[k]? = some b)
    (differ : i ≠ k) (column : a.slackColumn? = some s) : b.unit ≠ s := by
  rintro rfl
  have within := within_slot (List.mem_of_getElem? hb)
  have bounds := slackColumn_bounds (List.mem_of_getElem? ha) column
  cases b with
  | slack c => exact differ (slackColumn_index ha hb column rfl)
  | surplus c d =>
    simp only [Slot.Within, Slot.unit] at within bounds
    omega
  | artificial d =>
    simp only [Slot.Within, Slot.unit] at within bounds
    omega

theorem unit_ne_artificialColumn {a b : Slot} {c : ℕ} (ha : f.slots[i]? = some a)
    (hb : f.slots[k]? = some b) (differ : i ≠ k) (column : a.artificialColumn? = some c) : b.unit ≠ c := by
  rintro rfl
  have within := within_slot (List.mem_of_getElem? hb)
  have bounds := artificialColumn_bounds (List.mem_of_getElem? ha) column
  cases b with
  | slack c =>
    simp only [Slot.Within, Slot.unit] at within bounds
    omega
  | surplus c d => exact differ (artificialColumn_index ha hb column rfl)
  | artificial d => exact differ (artificialColumn_index ha hb column rfl)

end Slots

variable {f : StandardForm ℚ} {i k : ℕ} {r : StandardRow ℚ} {slot : Slot}

theorem entry_unit_self {a : Slot} (ha : a ∈ f.slots) : (a.entry a.unit : ℚ) = 1 := by
  have within := within_slot ha
  rw [Slot.entry_eq within]
  cases a with
  | slack s => exact if_pos rfl
  | surplus s c =>
    have apart : c ≠ s := by
      simp only [Slot.Within] at within
      omega
    simp [Slot.unit, apart]
  | artificial c => exact if_pos rfl

/-- **The unit columns form an identity.** -/
theorem entry_unit {a b : Slot} (ha : f.slots[i]? = some a) (hb : f.slots[k]? = some b) :
    (a.entry b.unit : ℚ) = if i = k then 1 else 0 := by
  have mem := List.mem_of_getElem? ha
  split
  · next same =>
    subst same
    obtain rfl := Option.some.inj (ha.symm.trans hb)
    exact entry_unit_self mem
  · next differ =>
    rw [Slot.entry_eq (within_slot mem)]
    cases a with
    | slack s => exact if_neg (unit_ne_slackColumn ha hb differ rfl)
    | surplus s c =>
      simp only
      rw [if_neg (unit_ne_artificialColumn ha hb differ rfl),
        if_neg (unit_ne_slackColumn ha hb differ rfl), sub_zero]
    | artificial c => exact if_neg (unit_ne_artificialColumn ha hb differ rfl)

/-- No other row has an entry in the slack or surplus column of a row. -/
theorem entry_slackColumn {a b : Slot} {s : ℕ} (ha : f.slots[i]? = some a) (hb : f.slots[k]? = some b)
    (differ : i ≠ k) (column : b.slackColumn? = some s) : (a.entry s : ℚ) = 0 := by
  have within := within_slot (List.mem_of_getElem? ha)
  have bounds := slackColumn_bounds (List.mem_of_getElem? hb) column
  have away : ∀ {c}, a.slackColumn? = some c → s ≠ c := fun own same =>
    differ (slackColumn_index ha hb own (same ▸ column))
  rw [Slot.entry_eq within]
  cases a with
  | slack c => exact if_neg (away rfl)
  | surplus c d =>
    have below : s ≠ d := by
      simp only [Slot.Within] at within
      omega
    simp only
    rw [if_neg below, if_neg (away rfl), sub_zero]
  | artificial d =>
    have below : s ≠ d := by
      simp only [Slot.Within] at within
      omega
    exact if_neg below

/-! ## Equations -/

theorem rows_tableau {q : Row ℚ} : f.tableau.rows[i]? = some q ↔
    ∃ r slot, f.rows[i]? = some r ∧ f.slots[i]? = some slot ∧ q = f.equation r slot := by
  rw [tableau, List.getElem?_zipWith_eq_some]
  constructor
  · rintro ⟨r, slot, hr, hs, rfl⟩
    exact ⟨r, slot, hr, hs, rfl⟩
  · rintro ⟨r, slot, hr, hs, rfl⟩
    exact ⟨r, slot, hr, hs, rfl⟩

theorem width_goal (proper : f.Proper) : f.goal.entries.length = f.columnCount := by
  simp [goal, auxiliaryColumns, proper.gains, columnCount_eq]

theorem lhs_goal (z : ℕ → ℚ) : f.goal.lhs z = weigh f.gains z := by
  have zeros : weigh (f.auxiliaryColumns.map fun _ => (0 : ℚ)) (fun j => z (f.gains.length + j)) = 0 := by
    apply Finset.sum_eq_zero
    intro j hj
    have inside : j < f.auxiliaryColumns.length := by simpa using Finset.mem_range.mp hj
    simp [inside]
  rw [Line.lhs, goal, weigh_append, zeros, add_zero]

theorem excess_goal (z : ℕ → ℚ) : f.goal.excess z = weigh f.gains z := by
  rw [Line.excess, lhs_goal]
  exact sub_zero _

theorem entry_goal_of_le (proper : f.Proper) {j : ℕ} (hj : f.variableCount ≤ j) : f.goal.entry j = 0 := by
  rw [← Line.lhs_single, lhs_goal, weigh_single, List.getD_eq_default]
  rw [proper.gains]
  exact hj

variable (proper : f.Proper) (hr : r ∈ f.rows)
include proper hr

theorem width_equation (slot : Slot) : (f.equation r slot).entries.length = f.columnCount := by
  simp [equation, auxiliaryColumns, proper.rows r hr, columnCount_eq]

theorem lhs_equation (hs : slot ∈ f.slots) (z : ℕ → ℚ) :
    (f.equation r slot).lhs z = weigh r.coefficients z + slot.part z := by
  rw [Line.lhs, equation, weigh_append, proper.rows r hr, auxiliaryColumns,
    Slot.weigh_entries (within_slot hs) columnCount_eq variableCount_le artificialStart_le]

theorem excess_equation (hs : slot ∈ f.slots) (z : ℕ → ℚ) :
    (f.equation r slot).excess z = weigh r.coefficients z + slot.part z - r.rhs := by
  rw [Line.excess, lhs_equation proper hr hs]
  rfl

theorem entry_equation_of_le {j : ℕ} (lo : f.variableCount ≤ j) (hi : j < f.columnCount) :
    (f.equation r slot).entry j = slot.entry j := by
  have width := proper.rows r hr
  rw [columnCount_eq] at hi
  rw [Line.entry, equation, List.getD_append_right _ _ _ _ (by omega), width, auxiliaryColumns,
    List.getD_eq_getElem?_getD, List.getElem?_map, List.getElem?_range' (by omega)]
  simp only [Option.map_some, Option.getD_some]
  congr 1
  omega

omit hr

/-- **The first tableau is canonical.** -/
theorem tableau_canonical : f.tableau.Canonical f.columnCount where
  width q hq := by
    obtain ⟨i, hi⟩ := List.getElem?_of_mem hq
    obtain ⟨r, slot, hr, -, rfl⟩ := rows_tableau.mp hi
    exact width_equation proper (List.mem_of_getElem? hr) slot
  goalWidth := width_goal proper
  basic_lt q hq := by
    obtain ⟨i, hi⟩ := List.getElem?_of_mem hq
    obtain ⟨r, slot, -, hs, rfl⟩ := rows_tableau.mp hi
    exact (unit_bounds (List.mem_of_getElem? hs)).2
  unit i k p q hp hq := by
    obtain ⟨r, slot, hr, hs, rfl⟩ := rows_tableau.mp hp
    obtain ⟨r', slot', -, hs', rfl⟩ := rows_tableau.mp hq
    obtain ⟨lo, hi⟩ := unit_bounds (List.mem_of_getElem? hs')
    exact (entry_equation_of_le proper (List.mem_of_getElem? hr) lo hi).trans (entry_unit hs hs')
  goal_basic q hq := by
    obtain ⟨i, hi⟩ := List.getElem?_of_mem hq
    obtain ⟨r, slot, -, hs, rfl⟩ := rows_tableau.mp hi
    exact entry_goal_of_le proper (unit_bounds (List.mem_of_getElem? hs)).1

theorem tableau_feasible : f.tableau.Feasible := by
  intro q hq
  obtain ⟨i, hi⟩ := List.getElem?_of_mem hq
  obtain ⟨r, slot, hr, -, rfl⟩ := rows_tableau.mp hi
  exact proper.rhs r (List.mem_of_getElem? hr)

/-- **What it is to solve the first tableau.** -/
theorem solves_tableau_iff (z : ℕ → ℚ) : f.tableau.Solves z ↔
    ∀ (i : ℕ) (r : StandardRow ℚ) (slot : Slot), f.rows[i]? = some r → f.slots[i]? = some slot →
      weigh r.coefficients z + slot.part z = r.rhs := by
  constructor
  · intro solves i r slot hr hs
    have zero := solves _ (List.mem_of_getElem? (rows_tableau.mpr ⟨r, slot, hr, hs, rfl⟩))
    rw [excess_equation proper (List.mem_of_getElem? hr) (List.mem_of_getElem? hs)] at zero
    exact sub_eq_zero.mp zero
  · intro holds q hq
    obtain ⟨i, hi⟩ := List.getElem?_of_mem hq
    obtain ⟨r, slot, hr, hs, rfl⟩ := rows_tableau.mp hi
    rw [excess_equation proper (List.mem_of_getElem? hr) (List.mem_of_getElem? hs),
      holds i r slot hr hs, sub_self]

end StandardForm

end Allotment.Simplex
