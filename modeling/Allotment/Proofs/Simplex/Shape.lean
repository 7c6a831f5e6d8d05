import Allotment.Proofs.Simplex.Correspondence
import Allotment.Proofs.Simplex.FirstPhase
import Allotment.Proofs.Simplex.Strict

/-!
# Tableaus stay rectangular

Whatever the numbers are, and whatever the tolerances: the first tableau of a standard form with one
coefficient per variable is rectangular, and everything that is done to a tableau keeps it so. A pivot
does as long as its column is one of the tableau, which `step_bounds` says of every pivot that is due.
No law of the number system is used.
-/

namespace Allotment.Simplex
set_option autoImplicit false

namespace Tableau

variable {α : Type} {t : Tableau α} {tolerance : α} {width columns row column : ℕ} {cautious : Bool}

namespace Rectangular

variable (h : t.Rectangular width)
include h

theorem row_width {r : Row α} (hr : r ∈ t.rows) : r.entries.length = width := h.1 r hr

theorem goal_width : t.goal.entries.length = width := h.2.1

theorem basic_lt {r : Row α} (hr : r ∈ t.rows) : r.basic < width := h.2.2 r hr

theorem withGoal {goal : Line α} (same : goal.entries.length = width) :
    ({ t with goal } : Tableau α).Rectangular width := ⟨h.1, same, h.2.2⟩

end Rectangular

variable [Scalar α]

/-- A pivot that is due is on a row and a column of the tableau. -/
theorem step_bounds (h : t.step tolerance columns cautious = .pivot row column) :
    row < t.rows.length ∧ column < columns := by
  obtain ⟨entering, leaving⟩ := step_eq_pivot h
  obtain ⟨r, hr, -⟩ := leaving?_candidate leaving
  exact ⟨(List.getElem?_eq_some_iff.mp hr).1, (entering?_lt entering).1⟩

namespace Rectangular

variable (h : t.Rectangular width)
include h

/-- **A pivot on a column of the tableau keeps it rectangular.** -/
theorem pivot (inside : column < width) (row : ℕ) : (t.pivot row column).Rectangular width := by
  unfold Tableau.pivot
  split
  · exact h
  · next r hr =>
    have mem := List.mem_of_getElem? hr
    have unit : (r.toLine.divide (r.entry column)).entries.length = width := by
      rw [Line.width_divide, h.row_width mem]
    have same {l : Line α} (hl : l.entries.length = width) :
        l.entries.length = (r.toLine.divide (r.entry column)).entries.length := hl.trans unit.symm
    refine ⟨fun q hq => ?_, ?_, fun q hq => ?_⟩
    · obtain ⟨i, hi, rfl⟩ := List.mem_mapIdx.mp hq
      have own := h.row_width (List.getElem_mem hi)
      split
      · exact unit
      · exact (Line.width_clear (same own) _).trans own
    · exact (Line.width_clear (same h.goal_width) _).trans h.goal_width
    · obtain ⟨i, hi, rfl⟩ := List.mem_mapIdx.mp hq
      split
      · exact inside
      · exact (h.basic_lt (List.getElem_mem hi) : t.rows[i].basic < width)

/-- **A run of pivots keeps a tableau rectangular.** -/
theorem runFrom (tolerance : α) (le : columns ≤ width) (budget streak pivots : ℕ) :
    (Tableau.runFrom tolerance columns budget streak pivots t).tableau.Rectangular width := by
  refine runFrom_invariant (fun t cautious row column h due => ?_) h
  exact h.pivot ((step_bounds due).2.trans_le le) row

end Rectangular

end Tableau

namespace StandardForm

variable {α : Type} {f : StandardForm α} {t : Tableau α} {tolerance : α}

/-- One coefficient per variable everywhere. -/
structure Rectangular (f : StandardForm α) : Prop where
  rows : ∀ r ∈ f.rows, r.coefficients.length = f.variableCount
  gains : f.gains.length = f.variableCount

theorem length_auxiliaryColumns :
    f.auxiliaryColumns.length = f.slackCount + f.artificialCount := List.length_range'

variable [Scalar α]

theorem Rectangular.tableau (h : f.Rectangular) : f.tableau.Rectangular f.columnCount := by
  have rest := length_auxiliaryColumns (f := f)
  have total := columnCount_eq (f := f)
  have rows : ∀ q ∈ f.tableau.rows, ∃ r ∈ f.rows, ∃ slot ∈ f.slots, q = f.equation r slot := by
    intro q hq
    obtain ⟨i, hi, rfl⟩ := List.getElem_of_mem hq
    rw [StandardForm.tableau, List.length_zipWith] at hi
    refine ⟨f.rows[i], List.getElem_mem _, f.slots[i], List.getElem_mem _, ?_⟩
    exact List.getElem_zipWith
  refine ⟨fun q hq => ?_, ?_, fun q hq => ?_⟩
  · obtain ⟨r, hr, slot, -, rfl⟩ := rows q hq
    rw [equation, List.length_append, List.length_map, h.rows r hr, rest, total]
  · change (f.gains ++ _).length = _
    rw [List.length_append, List.length_map, h.gains, rest, total]
  · obtain ⟨r, -, slot, hs, rfl⟩ := rows q hq
    exact (unit_bounds hs).2

theorem rectangular_driveOutRow (h : t.Rectangular f.columnCount) (row : ℕ) :
    (f.driveOutRow tolerance t row).Rectangular f.columnCount := by
  unfold StandardForm.driveOutRow
  split
  · exact h
  · split
    · exact h
    · split
      · exact h
      · next column found =>
        have inside := (List.findIdx?_eq_some_iff_getElem.mp found).1
        rw [List.length_take, lt_min_iff] at inside
        exact h.pivot (inside.1.trans_le artificialStart_le) row

/-- **The standard form of a program with one coefficient per variable** has one everywhere. -/
theorem ofProgram_rectangular {p : Program α}
    (objective : p.objective.coefficients.length = p.vars.length)
    (widths : ∀ c ∈ p.constraints, c.coefficients.length = p.vars.length) :
    (ofProgram p).Rectangular where
  rows _ hr := width_row widths hr
  gains := by
    rw [variableCount_ofProgram, ← objective]
    exact List.length_map _

end StandardForm

end Allotment.Simplex
