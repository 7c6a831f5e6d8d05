import Allotment.Proofs.Simplex.Layout
import Allotment.Proofs.Simplex.Pivot
import Allotment.Simplex.TwoPhase

/-!
# Objectives brought into a tableau

Either phase starts by putting an objective beside rows that are solved already. Both ways of making
it zero in the basic columns, adding rows to it and clearing the columns one by one, change it by
multiples of rows, so on solutions it stays what it was: minus the `shortfall`, which is what the
artificial columns add up to, in the first phase, and the objective of the program in the second.
-/

namespace Allotment.Simplex
set_option autoImplicit false

namespace Tableau.Canonical

variable {t : Tableau ℚ} {n : ℕ} (h : t.Canonical n)
include h

theorem withGoal {goal : Line ℚ} (width : goal.entries.length = n)
    (zero : ∀ r ∈ t.rows, goal.entry r.basic = 0) : ({ t with goal } : Tableau ℚ).Canonical n :=
  ⟨h.width, width, h.basic_lt, h.unit, zero⟩

theorem nodup_basic : (t.rows.map (·.basic)).Nodup := by
  rw [List.nodup_iff_getElem?_ne_getElem?]
  intro i k less inside same
  rw [List.length_map] at inside
  rw [List.getElem?_map, List.getElem?_map, List.getElem?_eq_getElem (less.trans inside),
    List.getElem?_eq_getElem inside, Option.map_some, Option.map_some] at same
  have e := h.index_eq (List.getElem?_eq_getElem (less.trans inside)) (List.getElem?_eq_getElem inside)
    (Option.some.inj same)
  omega

theorem nodup_rows : t.rows.Nodup := List.Nodup.of_map _ h.nodup_basic

theorem entry_basic_eq {r q : Row ℚ} (hr : r ∈ t.rows) (hq : q ∈ t.rows) :
    r.entry q.basic = if q = r then 1 else 0 := by
  split
  · next same => rw [same, h.entry_self hr]
  · next differ => exact h.entry_basic hr hq fun e => differ (h.row_eq hr hq e).symm

/-- A fold over rows keeps the width of a line and its excess at the solutions when each step does. -/
theorem foldl_keeps {change : Line ℚ → Row ℚ → Line ℚ}
    (keeps : ∀ (goal : Line ℚ) (r : Row ℚ), goal.entries.length = r.entries.length →
      (change goal r).entries.length = goal.entries.length ∧
        ∀ z, r.excess z = 0 → (change goal r).excess z = goal.excess z)
    {rows : List (Row ℚ)} (sub : ∀ r ∈ rows, r ∈ t.rows) {goal : Line ℚ}
    (width : goal.entries.length = n) : (rows.foldl change goal).entries.length = n ∧
      ∀ z, t.Solves z → (rows.foldl change goal).excess z = goal.excess z := by
  induction rows generalizing goal with
  | nil => exact ⟨width, fun _ _ => rfl⟩
  | cons r rows ih =>
    obtain ⟨mem, rest⟩ := List.forall_mem_cons.mp sub
    obtain ⟨same, excess⟩ := keeps goal r (width.trans (h.width r mem).symm)
    obtain ⟨width', excess'⟩ := ih rest (same.trans width)
    exact ⟨width', fun z solves => (excess' z solves).trans (excess z (solves r mem))⟩

section

variable {rows : List (Row ℚ)} (sub : ∀ r ∈ rows, r ∈ t.rows) {goal : Line ℚ}
  (width : goal.entries.length = n)
include sub width

/-! ## Clearing the basic columns -/

theorem priceOut_keeps : (priceOut rows goal).entries.length = n ∧
    ∀ z, t.Solves z → (priceOut rows goal).excess z = goal.excess z := by
  refine h.foldl_keeps (fun goal r same => ⟨Line.width_clear same _, fun z solves => ?_⟩) sub width
  rw [Line.excess_clear same, solves, mul_zero, sub_zero]

theorem entry_priceOut {q : Row ℚ} (hq : q ∈ t.rows) :
    (priceOut rows goal).entry q.basic = if q ∈ rows then 0 else goal.entry q.basic := by
  induction rows generalizing goal with
  | nil => simp [priceOut]
  | cons r rows ih =>
    obtain ⟨mem, rest⟩ := List.forall_mem_cons.mp sub
    have same : goal.entries.length = r.entries.length := width.trans (h.width r mem).symm
    have later := ih rest ((Line.width_clear same r.basic).trans width)
    rw [Line.entry_clear same, h.entry_basic_eq mem hq] at later
    rw [priceOut, List.foldl_cons]
    refine later.trans ?_
    by_cases here : q = r
    · simp [here]
    · simp [here]

/-! ## Adding rows -/

theorem foldl_add_keeps : (rows.foldl (fun goal r => goal.add r.toLine) goal).entries.length = n ∧
    ∀ z, t.Solves z →
      (rows.foldl (fun goal r => goal.add r.toLine) goal).excess z = goal.excess z := by
  refine h.foldl_keeps (fun goal r same => ⟨Line.width_add same, fun z solves => ?_⟩) sub width
  rw [Line.excess_add same, solves, add_zero]

theorem entry_foldl_add (nodup : rows.Nodup) {q : Row ℚ} (hq : q ∈ t.rows) :
    (rows.foldl (fun goal r => goal.add r.toLine) goal).entry q.basic =
      goal.entry q.basic + if q ∈ rows then 1 else 0 := by
  induction rows generalizing goal with
  | nil => simp
  | cons r rows ih =>
    obtain ⟨mem, rest⟩ := List.forall_mem_cons.mp sub
    obtain ⟨fresh, nodup⟩ := List.nodup_cons.mp nodup
    have same : goal.entries.length = r.entries.length := width.trans (h.width r mem).symm
    rw [List.foldl_cons, ih rest ((Line.width_add same).trans width) nodup, Line.entry_add same,
      h.entry_basic_eq mem hq]
    by_cases here : q = r
    · simp [here, fresh]
    · simp [here]

end

end Tableau.Canonical

namespace StandardForm

variable {f : StandardForm ℚ} {t : Tableau ℚ}

/-- What the artificial columns add up to at a point. -/
def shortfall (f : StandardForm ℚ) (z : ℕ → ℚ) : ℚ :=
  ∑ j ∈ Finset.Ico f.artificialStart f.columnCount, z j

theorem shortfall_nonneg {z : ℕ → ℚ} (nonneg : ∀ j, 0 ≤ z j) : 0 ≤ f.shortfall z :=
  Finset.sum_nonneg fun j _ => nonneg j

/-- Minus one in every artificial column. -/
def artificialLine (f : StandardForm ℚ) : Line ℚ where
  entries := (List.range f.columnCount).map fun j => if j < f.artificialStart then 0 else -1
  rhs := 0

/-- The rows that are solved for an artificial column. -/
def artificialRows (f : StandardForm ℚ) (t : Tableau ℚ) : List (Row ℚ) :=
  t.rows.filter fun r => decide (f.artificialStart ≤ r.basic)

theorem mem_artificialRows {r : Row ℚ} :
    r ∈ f.artificialRows t ↔ r ∈ t.rows ∧ f.artificialStart ≤ r.basic := by
  rw [artificialRows, List.mem_filter, decide_eq_true_eq]

theorem width_artificialLine : f.artificialLine.entries.length = f.columnCount := by
  simp [artificialLine]

theorem entry_artificialLine {j : ℕ} (hj : j < f.columnCount) :
    f.artificialLine.entry j = if j < f.artificialStart then 0 else -1 := by
  simp [artificialLine, Line.entry, hj]

theorem excess_artificialLine (z : ℕ → ℚ) : f.artificialLine.excess z = -f.shortfall z := by
  have lhs : f.artificialLine.lhs z = -f.shortfall z := by
    rw [Line.lhs_eq_sum width_artificialLine, ← Finset.sum_range_add_sum_Ico _ artificialStart_le,
      shortfall, ← Finset.sum_neg_distrib]
    have before : ∑ j ∈ Finset.range f.artificialStart, f.artificialLine.entry j * z j = 0 := by
      apply Finset.sum_eq_zero
      intro j hj
      have below := Finset.mem_range.mp hj
      rw [entry_artificialLine (below.trans_le artificialStart_le), if_pos below, zero_mul]
    rw [before, zero_add]
    apply Finset.sum_congr rfl
    intro j hj
    obtain ⟨lo, hi⟩ := Finset.mem_Ico.mp hj
    rw [entry_artificialLine hi, if_neg lo.not_gt, neg_one_mul]
  rw [Line.excess, lhs]
  exact sub_zero _

theorem auxiliaryGoal_eq : f.auxiliaryGoal t =
    (f.artificialRows t).foldl (fun goal r => goal.add r.toLine) f.artificialLine := rfl

variable (h : t.Canonical f.columnCount)
include h

/-- **The first phase starts at a canonical tableau.** -/
theorem auxiliary_canonical : ({ t with goal := f.auxiliaryGoal t } : Tableau ℚ).Canonical f.columnCount := by
  have sub : ∀ r ∈ f.artificialRows t, r ∈ t.rows := fun r hr => (mem_artificialRows.mp hr).1
  have nodup : (f.artificialRows t).Nodup := h.nodup_rows.filter _
  rw [auxiliaryGoal_eq]
  refine h.withGoal (h.foldl_add_keeps sub width_artificialLine).1 fun r hr => ?_
  rw [h.entry_foldl_add sub width_artificialLine nodup hr, entry_artificialLine (h.basic_lt r hr)]
  by_cases artificial : f.artificialStart ≤ r.basic
  · rw [if_neg artificial.not_gt, if_pos (mem_artificialRows.mpr ⟨hr, artificial⟩)]
    norm_num
  · rw [if_pos (not_le.mp artificial), if_neg fun mem => artificial (mem_artificialRows.mp mem).2]
    norm_num

/-- **The first phase maximizes minus the shortfall.** -/
theorem excess_auxiliaryGoal {z : ℕ → ℚ} (solves : t.Solves z) :
    (f.auxiliaryGoal t).excess z = -f.shortfall z := by
  have sub : ∀ r ∈ f.artificialRows t, r ∈ t.rows := fun r hr => (mem_artificialRows.mp hr).1
  rw [auxiliaryGoal_eq, (h.foldl_add_keeps sub width_artificialLine).2 z solves, excess_artificialLine]

/-- **The residual of a tableau is the shortfall of its vertex.** -/
theorem residual_eq : f.residual t = f.shortfall t.vertex := by
  have nodup : (f.artificialRows t).Nodup := h.nodup_rows.filter _
  have residual : f.residual t = ∑ r ∈ (f.artificialRows t).toFinset, r.rhs := by
    rw [List.sum_toFinset _ nodup, residual, sum_rat]
    rfl
  rw [residual, shortfall]
  -- an artificial column that is not basic adds nothing, and the others have a row each
  refine Finset.sum_of_injOn (·.basic) ?_ ?_ ?_ ?_
  · intro r hr q hq same
    rw [Finset.mem_coe, List.mem_toFinset, mem_artificialRows] at hr hq
    exact h.row_eq hr.1 hq.1 same
  · intro r hr
    rw [Finset.mem_coe, List.mem_toFinset, mem_artificialRows] at hr
    exact Finset.mem_coe.mpr (Finset.mem_Ico.mpr ⟨hr.2, h.basic_lt r hr.1⟩)
  · intro j hj outside
    refine Tableau.vertex_of_not_mem fun basic => outside ?_
    obtain ⟨r, hr, rfl⟩ := Tableau.mem_basis.mp basic
    refine ⟨r, ?_, rfl⟩
    rw [Finset.mem_coe, List.mem_toFinset]
    exact mem_artificialRows.mpr ⟨hr, (Finset.mem_Ico.mp hj).1⟩
  · intro r hr
    rw [List.mem_toFinset, mem_artificialRows] at hr
    exact (h.vertex_basic hr.1).symm

/-- **The second phase starts with the objective of the program.** -/
theorem restoreGoal_sound (proper : f.Proper) (same : ∀ z, t.Solves z ↔ f.tableau.Solves z) :
    (f.restoreGoal t).Canonical f.columnCount ∧ (f.restoreGoal t).Equivalent f.tableau := by
  have sub : ∀ r ∈ t.rows, r ∈ t.rows := fun _ => id
  have width := width_goal proper
  refine ⟨h.withGoal (h.priceOut_keeps sub width).1 fun r hr => ?_, same, fun z solves => ?_⟩
  · rw [h.entry_priceOut sub width hr, if_pos hr]
  · exact (h.priceOut_keeps sub width).2 z ((same z).mpr solves)

end StandardForm

end Allotment.Simplex
