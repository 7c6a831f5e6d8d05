import Allotment.Proofs.Simplex.Repricing
import Allotment.Proofs.Simplex.Run

/-!
# Where the second phase starts

The first phase pivots towards the least shortfall, drives artificial columns out of the basis and
puts the objective of the program back. At every tolerance the second phase then starts at a
canonical tableau with the solutions and the objective of the first one (`start_sound`): pivots keep
both, whatever entry they are on, and the objective is restored for the rows as they are.
-/

namespace Allotment.Simplex
set_option autoImplicit false

namespace StandardForm

section Generic

variable {α : Type} [Scalar α]

/-- The tableau that the first phase starts from. -/
def firstStart (f : StandardForm α) : Tableau α := { f.tableau with goal := f.auxiliaryGoal f.tableau }

/-- The run of the first phase. -/
def firstRun (f : StandardForm α) (s : SolverSettings α) : Run α :=
  f.firstStart.run s.pivotTolerance f.columnCount s.maxPivots 0

theorem firstPhase_eq (f : StandardForm α) (s : SolverSettings α) : f.firstPhase s =
    match (f.firstRun s).stop with
    | .limit => .limit (f.firstRun s).pivots
    | .unbounded => .infeasible (f.firstRun s).tableau (f.firstRun s).pivots
    | .optimal =>
      if s.bindingTolerance < f.residual (f.firstRun s).tableau then
        .infeasible (f.firstRun s).tableau (f.firstRun s).pivots
      else
        .feasible (f.restoreGoal (f.driveOut s.pivotTolerance (f.firstRun s).tableau))
          (f.firstRun s).pivots := rfl

/-- The column that a row is solved for when artificials are driven out, where it is solved anew. -/
def drivenColumn? (f : StandardForm α) (tolerance : α) (t : Tableau α) (row : ℕ) : Option ℕ :=
  match t.rows[row]? with
  | none => none
  | some r =>
    if r.basic < f.artificialStart then none
    else (r.entries.take f.artificialStart).findIdx? fun a => decide (tolerance < Scalar.abs a)

theorem driveOutRow_eq (f : StandardForm α) (tolerance : α) (t : Tableau α) (row : ℕ) :
    f.driveOutRow tolerance t row =
      match f.drivenColumn? tolerance t row with
      | none => t
      | some column => t.pivot row column := by
  unfold driveOutRow drivenColumn?
  cases t.rows[row]? with
  | none => rfl
  | some r =>
    dsimp only
    split <;> rfl

theorem length_driveOutRow (f : StandardForm α) (tolerance : α) (t : Tableau α) (row : ℕ) :
    (f.driveOutRow tolerance t row).rows.length = t.rows.length := by
  rw [driveOutRow_eq]
  split
  · rfl
  · exact Tableau.length_pivot _ _ _

theorem length_foldl_driveOutRow (f : StandardForm α) (tolerance : α) (t : Tableau α) (rows : List ℕ) :
    (rows.foldl (f.driveOutRow tolerance) t).rows.length = t.rows.length := by
  induction rows generalizing t with
  | nil => rfl
  | cons row rows ih => exact (ih _).trans (length_driveOutRow f tolerance t row)

theorem foldl_driveOutRow_succ (f : StandardForm α) (tolerance : α) (t : Tableau α) (k : ℕ) :
    (List.range (k + 1)).foldl (f.driveOutRow tolerance) t =
      f.driveOutRow tolerance ((List.range k).foldl (f.driveOutRow tolerance) t) k := by
  rw [List.range_succ, List.foldl_append, List.foldl_cons, List.foldl_nil]

/-! ## How the first phase ends -/

variable {f : StandardForm α} {s : SolverSettings α} {t : Tableau α} {pivots : ℕ}

theorem start_of_artificial (some : 0 < f.artificialCount) : f.start s = f.firstPhase s := if_pos some

theorem start_of_no_artificial (none : ¬0 < f.artificialCount) : f.start s = .feasible f.tableau 0 :=
  if_neg none

/-- A first phase that finds no start was run. -/
theorem artificialCount_pos (none : ∀ t pivots, f.start s ≠ .feasible t pivots) : 0 < f.artificialCount := by
  by_contra absent
  exact none _ _ (start_of_no_artificial absent)

section Run

variable (some : 0 < f.artificialCount)
include some

theorem start_eq_feasible_iff : f.start s = .feasible t pivots ↔
    (f.firstRun s).stop = .optimal ∧ ¬s.bindingTolerance < f.residual (f.firstRun s).tableau ∧
      t = f.restoreGoal (f.driveOut s.pivotTolerance (f.firstRun s).tableau) ∧
      pivots = (f.firstRun s).pivots := by
  rw [start_of_artificial some, firstPhase_eq]
  split
  · next cut => simp [cut]
  · next unbounded => simp [unbounded]
  · next optimal =>
    split
    · next large => simp [large]
    · next small => simp [optimal, small, eq_comm]

theorem start_eq_infeasible_iff : f.start s = .infeasible t pivots ↔
    ((f.firstRun s).stop = .unbounded ∨ (f.firstRun s).stop = .optimal ∧
      s.bindingTolerance < f.residual (f.firstRun s).tableau) ∧
      t = (f.firstRun s).tableau ∧ pivots = (f.firstRun s).pivots := by
  rw [start_of_artificial some, firstPhase_eq]
  split
  · next cut => simp [cut]
  · next unbounded => simp [unbounded, eq_comm]
  · next optimal =>
    split
    · next large => simp [optimal, large, eq_comm]
    · next small => simp [optimal, small]

theorem start_eq_limit_iff :
    f.start s = .limit pivots ↔ (f.firstRun s).stop = .limit ∧ (f.firstRun s).pivots = pivots := by
  rw [start_of_artificial some, firstPhase_eq]
  split
  · next cut => simp [cut]
  · next unbounded => simp [unbounded]
  · next optimal => split <;> simp [optimal]

end Run

theorem start_eq_infeasible (h : f.start s = .infeasible t pivots) :
    (f.firstRun s).stop = .unbounded ∨ (f.firstRun s).stop = .optimal ∧
      s.bindingTolerance < f.residual (f.firstRun s).tableau := by
  have some : 0 < f.artificialCount := artificialCount_pos (s := s) (by simp [h])
  exact ((start_eq_infeasible_iff some).mp h).1

theorem start_eq_limit (h : f.start s = .limit pivots) : (f.firstRun s).stop = .limit := by
  have some : 0 < f.artificialCount := artificialCount_pos (s := s) (by simp [h])
  exact ((start_eq_limit_iff some).mp h).1

end Generic

variable {f : StandardForm ℚ} {s : SolverSettings ℚ} {t u : Tableau ℚ} {tolerance : ℚ}
  {row column pivots : ℕ} {r : Row ℚ}

/-! ## How the second phase is reached -/

theorem start_eq_feasible (h : f.start s = .feasible t pivots) :
    f.artificialCount = 0 ∧ t = f.tableau ∧ pivots = 0 ∨
      0 < f.artificialCount ∧ (f.firstRun s).stop = .optimal ∧
        f.residual (f.firstRun s).tableau ≤ s.bindingTolerance ∧ pivots = (f.firstRun s).pivots ∧
        t = f.restoreGoal (f.driveOut s.pivotTolerance (f.firstRun s).tableau) := by
  by_cases some : 0 < f.artificialCount
  · obtain ⟨optimal, small, same, spent⟩ := (start_eq_feasible_iff some).mp h
    exact Or.inr ⟨some, optimal, not_lt.mp small, spent, same⟩
  · rw [start_of_no_artificial some] at h
    cases h
    exact Or.inl ⟨Nat.eq_zero_of_not_pos some, rfl, rfl⟩

theorem firstStart_canonical (proper : f.Proper) : f.firstStart.Canonical f.columnCount :=
  auxiliary_canonical (tableau_canonical proper)

theorem firstStart_feasible (proper : f.Proper) : f.firstStart.Feasible := tableau_feasible proper

theorem excess_firstStart (proper : f.Proper) {z : ℕ → ℚ} (solves : f.tableau.Solves z) :
    f.firstStart.goal.excess z = -f.shortfall z :=
  excess_auxiliaryGoal (tableau_canonical proper) solves

theorem firstRun_sound (proper : f.Proper) (nonneg : 0 ≤ s.pivotTolerance) :
    Tableau.Sound f.firstStart f.columnCount (f.firstRun s).tableau :=
  Tableau.Sound.run ⟨firstStart_canonical proper, .refl _⟩ nonneg _ _

/-! ## Driving artificial columns out -/

/-- **A row that is solved anew** is solved for an artificial column, and has an entry beyond the tolerance
in the other column that it is solved for now. -/
theorem drivenColumn?_eq_some (h : f.drivenColumn? tolerance t row = some column) :
    ∃ r, t.rows[row]? = some r ∧ f.artificialStart ≤ r.basic ∧ column < f.artificialStart ∧
      tolerance < |r.entry column| := by
  unfold drivenColumn? at h
  split at h
  · cases h
  · next r hr =>
    split at h
    · cases h
    · next artificial =>
      obtain ⟨inside, beyond, -⟩ := List.findIdx?_eq_some_iff_getElem.mp h
      rw [List.length_take, lt_min_iff] at inside
      rw [List.getElem_take] at beyond
      refine ⟨r, hr, not_lt.mp artificial, inside.1, ?_⟩
      rw [Line.entry, List.getD_eq_getElem _ _ inside.2]
      simpa using beyond

/-- **A row that is left alone** has nothing beyond the tolerance outside the artificial columns, or is not
solved for one of them. -/
theorem drivenColumn?_eq_none (nonneg : 0 ≤ tolerance) (h : f.drivenColumn? tolerance t row = none)
    (hr : t.rows[row]? = some r) (artificial : f.artificialStart ≤ r.basic) {j : ℕ}
    (hj : j < f.artificialStart) : |r.entry j| ≤ tolerance := by
  simp only [drivenColumn?, hr, if_neg artificial.not_gt] at h
  by_cases inside : j < r.entries.length
  · have mem : r.entry j ∈ r.entries.take f.artificialStart := by
      rw [Line.entry, List.getD_eq_getElem _ _ inside]
      exact List.mem_take_iff_getElem.mpr ⟨j, by omega, rfl⟩
    have fails := List.findIdx?_eq_none_iff.mp h _ mem
    simpa using fails
  · rwa [Line.entry_of_width_le (not_lt.mp inside), abs_zero]

/-- **What is done with one row**: it is pivoted on an entry outside the artificial columns, or it has
none beyond the tolerance. -/
theorem driveOutRow_cases (nonneg : 0 ≤ tolerance) (t : Tableau ℚ)
    (row : ℕ) : f.driveOutRow tolerance t row = t ∧ (∀ r, t.rows[row]? = some r → f.artificialStart ≤ r.basic →
        ∀ j < f.artificialStart, |r.entry j| ≤ tolerance) ∨
      ∃ r column, t.rows[row]? = some r ∧ f.artificialStart ≤ r.basic ∧ column < f.artificialStart ∧
        tolerance < |r.entry column| ∧ f.driveOutRow tolerance t row = t.pivot row column := by
  rw [driveOutRow_eq]
  cases driven : f.drivenColumn? tolerance t row with
  | none =>
    exact Or.inl ⟨rfl, fun r hr artificial j hj => drivenColumn?_eq_none nonneg driven hr artificial hj⟩
  | some column =>
    obtain ⟨r, hr, artificial, inside, beyond⟩ := drivenColumn?_eq_some driven
    exact Or.inr ⟨r, column, hr, artificial, inside, beyond, rfl⟩

theorem driveOutRow_sound (nonneg : 0 ≤ tolerance) (sound : Tableau.Sound u f.columnCount t) (row : ℕ) :
    Tableau.Sound u f.columnCount (f.driveOutRow tolerance t row) := by
  obtain ⟨same, -⟩ | ⟨r, column, hr, -, inside, beyond, pivot⟩ := driveOutRow_cases (f := f) nonneg t row
  · rwa [same]
  · have nonzero : r.entry column ≠ 0 := abs_pos.mp (nonneg.trans_lt beyond)
    rw [pivot]
    exact ⟨sound.canonical.pivot hr nonzero (inside.trans_le artificialStart_le),
      (sound.canonical.pivot_equivalent hr nonzero).trans sound.equivalent⟩

theorem driveOut_sound (nonneg : 0 ≤ tolerance) (sound : Tableau.Sound u f.columnCount t) :
    Tableau.Sound u f.columnCount (f.driveOut tolerance t) := by
  unfold driveOut
  induction List.range t.rows.length generalizing t with
  | nil => exact sound
  | cons row rows ih => exact ih (driveOutRow_sound nonneg sound row)

/-- **The second phase starts with the solutions and the objective of the first tableau.** -/
theorem start_sound (proper : f.Proper) (nonneg : 0 ≤ s.pivotTolerance)
    (h : f.start s = .feasible t pivots) : Tableau.Sound f.tableau f.columnCount t := by
  obtain ⟨-, rfl, -⟩ | ⟨-, -, -, -, rfl⟩ := start_eq_feasible h
  · exact ⟨tableau_canonical proper, .refl _⟩
  · have sound := driveOut_sound nonneg (firstRun_sound (s := s) proper nonneg)
    obtain ⟨canonical, equivalent⟩ :=
      restoreGoal_sound sound.canonical proper sound.equivalent.solves_iff
    exact ⟨canonical, equivalent⟩

end StandardForm

end Allotment.Simplex
