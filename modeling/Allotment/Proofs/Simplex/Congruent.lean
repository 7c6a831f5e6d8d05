import Allotment.Proofs.Simplex.FirstPhase

/-!
# Standard forms that are solved alike

Two things about a standard form are looked at only when a solution is read off: the lower bounds that
the quantities were counted from, and the marks of the rows that were negated. Standard forms that
differ in nothing else are `Congruent`: they have the same first tableau, so both phases make the same
pivots for both.
-/

namespace Allotment.Simplex
set_option autoImplicit false

/-- The row, without the mark that says whether it was negated. -/
def StandardRow.unmarked {α : Type} (r : StandardRow α) : StandardRow α := { r with negated := false }

namespace StandardForm

/-- **Standard forms with the same system of rows and the same gains.** -/
structure Congruent {α : Type} (f g : StandardForm α) : Prop where
  lower : f.lower.length = g.lower.length
  rows : f.rows.map StandardRow.unmarked = g.rows.map StandardRow.unmarked
  gains : f.gains = g.gains

namespace Congruent

variable {α : Type} {f g : StandardForm α} (h : f.Congruent g)
include h

theorem relations : f.rows.map (·.relation) = g.rows.map (·.relation) := by
  have same := congrArg (List.map StandardRow.relation) h.rows
  rwa [List.map_map, List.map_map] at same

theorem variableCount : f.variableCount = g.variableCount := h.lower

theorem slackCount : f.slackCount = g.slackCount := by
  have same := congrArg (List.countP (· != .equal)) h.relations
  rwa [List.countP_map, List.countP_map] at same

theorem artificialCount : f.artificialCount = g.artificialCount := by
  have same := congrArg (List.countP (· != .atMost)) h.relations
  rwa [List.countP_map, List.countP_map] at same

theorem artificialStart : f.artificialStart = g.artificialStart := by
  rw [StandardForm.artificialStart, StandardForm.artificialStart, h.variableCount, h.slackCount]

theorem columnCount : f.columnCount = g.columnCount := by
  rw [StandardForm.columnCount, StandardForm.columnCount, h.artificialStart, h.artificialCount]

theorem slots : f.slots = g.slots := by
  rw [StandardForm.slots, StandardForm.slots, h.variableCount, h.artificialStart, h.relations]

theorem auxiliaryColumns : f.auxiliaryColumns = g.auxiliaryColumns := by
  rw [StandardForm.auxiliaryColumns, StandardForm.auxiliaryColumns, h.variableCount, h.slackCount,
    h.artificialCount]

theorem basicFlags (t : Tableau α) : f.basicFlags t = g.basicFlags t := by
  rw [StandardForm.basicFlags, StandardForm.basicFlags, h.variableCount]

variable [Scalar α]

theorem goal : f.goal = g.goal := by
  rw [StandardForm.goal, StandardForm.goal, h.auxiliaryColumns, h.gains]

/-- **Congruent standard forms have the same first tableau.** -/
theorem tableau : f.tableau = g.tableau := by
  have equation : f.equation = g.equation := by
    funext r slot
    rw [StandardForm.equation, StandardForm.equation, h.auxiliaryColumns]
  -- an equation does not show the mark of its row
  have unmarked (k : StandardForm α) (rows : List (StandardRow α)) (slots : List Slot) :
      List.zipWith k.equation (rows.map StandardRow.unmarked) slots = List.zipWith k.equation rows slots :=
    List.zipWith_map_left
  rw [StandardForm.tableau, StandardForm.tableau, h.slots, h.goal, equation, ← unmarked, h.rows, unmarked]

theorem firstRun (s : SolverSettings α) : f.firstRun s = g.firstRun s := by
  simp only [StandardForm.firstRun, firstStart, auxiliaryGoal, h.tableau, h.columnCount,
    h.artificialStart]

theorem residual (t : Tableau α) : f.residual t = g.residual t := by
  rw [StandardForm.residual, StandardForm.residual, h.artificialStart]

theorem driveOut (tolerance : α) (t : Tableau α) : f.driveOut tolerance t = g.driveOut tolerance t := by
  have row : f.driveOutRow tolerance = g.driveOutRow tolerance := by
    funext t row
    simp only [driveOutRow, h.artificialStart]
  rw [StandardForm.driveOut, StandardForm.driveOut, row]

theorem restoreGoal (t : Tableau α) : f.restoreGoal t = g.restoreGoal t := by
  rw [StandardForm.restoreGoal, StandardForm.restoreGoal, h.goal]

/-- **Both phases start alike.** -/
theorem start (s : SolverSettings α) : f.start s = g.start s := by
  simp only [StandardForm.start, firstPhase_eq, h.artificialCount, h.firstRun, h.residual, h.driveOut,
    h.restoreGoal, h.tableau]

theorem secondPhase (s : SolverSettings α) (t : Tableau α) (pivots : ℕ) :
    f.secondPhase s t pivots = g.secondPhase s t pivots := by
  rw [StandardForm.secondPhase, StandardForm.secondPhase, h.artificialStart]

theorem reducedCosts (p : Program α) (t : Tableau α) : f.reducedCosts p t = g.reducedCosts p t := by
  rw [StandardForm.reducedCosts, StandardForm.reducedCosts, h.basicFlags]

end Congruent

end StandardForm

end Allotment.Simplex
