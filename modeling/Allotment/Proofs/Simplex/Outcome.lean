import Allotment.Proofs.Simplex.Correspondence
import Allotment.Proofs.Simplex.FirstPhase

/-!
# The outcome of solving a program

What each status says about the two phases, and what the reported point is: the vertex of the last
tableau, counted from the lower bounds, with quantities below `snapWidth` taken to be zero
(`point_eq`).
-/

namespace Allotment.Simplex
set_option autoImplicit false

/-! ## The two phases -/

/-- The status that the end of a second phase gives a solution. -/
def Stop.status : Stop → Status
  | .optimal => .optimal
  | .unbounded => .unbounded
  | .limit => .pivotLimit

/-- The run of the second phase, where there is one. -/
def finalRun? (s : SolverSettings ℚ) (p : Program ℚ) : Option (Run ℚ) :=
  match (StandardForm.ofProgram p).start s with
  | .feasible t pivots => some ((StandardForm.ofProgram p).secondPhase s t pivots)
  | _ => none

theorem solve_of_start_feasible {α : Type} [Scalar α] {s : SolverSettings α} {p : Program α}
    {t : Tableau α} {pivots : ℕ} (h : (StandardForm.ofProgram p).start s = .feasible t pivots) : solve s p =
      match ((StandardForm.ofProgram p).secondPhase s t pivots).stop with
      | .limit => .pivotLimit p ((StandardForm.ofProgram p).secondPhase s t pivots).pivots
      | .unbounded => .unbounded p ((StandardForm.ofProgram p).secondPhase s t pivots).pivots
      | .optimal => (StandardForm.ofProgram p).solution p s
          ((StandardForm.ofProgram p).secondPhase s t pivots).tableau
          ((StandardForm.ofProgram p).secondPhase s t pivots).pivots := by
  cases stop : ((StandardForm.ofProgram p).secondPhase s t pivots).stop <;> simp only [solve, h, stop]

theorem solve_of_start_infeasible {α : Type} [Scalar α] {s : SolverSettings α} {p : Program α}
    {t : Tableau α} {pivots : ℕ} (h : (StandardForm.ofProgram p).start s = .infeasible t pivots) :
    solve s p =
      .infeasible p (p.violations ((StandardForm.ofProgram p).point t) s.bindingTolerance) pivots := by
  simp only [solve, h]

theorem solve_of_start_limit {α : Type} [Scalar α] {s : SolverSettings α} {p : Program α} {pivots : ℕ}
    (h : (StandardForm.ofProgram p).start s = .limit pivots) : solve s p = .pivotLimit p pivots := by
  simp only [solve, h]

/-- A solution names the variables of its program, however solving it ended. -/
theorem names_solve {α : Type} [Scalar α] (s : SolverSettings α) (p : Program α) :
    (solve s p).names = p.names := by
  rw [solve]
  split
  · rfl
  · rfl
  · dsimp only
    split <;> rfl

/-- **An optimum is read off some tableau.** -/
theorem exists_solution_of_optimal {α : Type} [Scalar α] {s : SolverSettings α} {p : Program α}
    (h : (solve s p).status = .optimal) :
    ∃ t pivots, solve s p = (StandardForm.ofProgram p).solution p s t pivots := by
  cases start : (StandardForm.ofProgram p).start s with
  | feasible t pivots =>
    rw [solve_of_start_feasible start] at h ⊢
    split at h
    · cases h
    · cases h
    · exact ⟨_, _, rfl⟩
  | infeasible t pivots =>
    rw [solve_of_start_infeasible start] at h
    cases h
  | limit pivots =>
    rw [solve_of_start_limit start] at h
    cases h

section Status

variable {s : SolverSettings ℚ} {p : Program ℚ} {run : Run ℚ}

theorem finalRun?_eq_some : finalRun? s p = some run ↔ ∃ t pivots,
    (StandardForm.ofProgram p).start s = .feasible t pivots ∧
      run = (StandardForm.ofProgram p).secondPhase s t pivots := by
  unfold finalRun?
  cases (StandardForm.ofProgram p).start s with
  | feasible t pivots =>
    constructor
    · intro h
      exact ⟨t, pivots, rfl, (Option.some.inj h).symm⟩
    · rintro ⟨t', pivots', h, rfl⟩
      cases h
      rfl
  | infeasible t pivots => simp
  | limit pivots => simp

/-- **The second phase decides the status**, where there is one. -/
theorem status_of_finalRun? (h : finalRun? s p = some run) : (solve s p).status = run.stop.status := by
  obtain ⟨t, pivots, start, rfl⟩ := finalRun?_eq_some.mp h
  rw [solve_of_start_feasible start]
  cases ((StandardForm.ofProgram p).secondPhase s t pivots).stop <;> rfl

/-- **An optimum is read off the last tableau of a second phase that ended optimal.** -/
theorem exists_run_of_optimal (h : (solve s p).status = .optimal) : ∃ run,
    finalRun? s p = some run ∧ run.stop = .optimal ∧
      solve s p = (StandardForm.ofProgram p).solution p s run.tableau run.pivots := by
  cases start : (StandardForm.ofProgram p).start s with
  | feasible t pivots =>
    refine ⟨_, finalRun?_eq_some.mpr ⟨t, pivots, start, rfl⟩, ?_⟩
    rw [solve_of_start_feasible start] at h ⊢
    split at h
    · cases h
    · cases h
    · next optimal => exact ⟨optimal, rfl⟩
  | infeasible t pivots =>
    rw [solve, start] at h
    cases h
  | limit pivots =>
    rw [solve, start] at h
    cases h

theorem exists_run_of_unbounded (h : (solve s p).status = .unbounded) : ∃ run,
    finalRun? s p = some run ∧ run.stop = .unbounded := by
  cases start : (StandardForm.ofProgram p).start s with
  | feasible t pivots =>
    refine ⟨_, finalRun?_eq_some.mpr ⟨t, pivots, start, rfl⟩, ?_⟩
    rw [solve_of_start_feasible start] at h
    split at h
    · cases h
    · assumption
    · cases h
  | infeasible t pivots =>
    rw [solve, start] at h
    cases h
  | limit pivots =>
    rw [solve, start] at h
    cases h

/-- **At every tolerance the second phase ends at a tableau with the solutions and the objective of the
first one.** -/
theorem sound_finalRun? (h : p.WellFormed) (nonneg : 0 ≤ s.pivotTolerance) (hrun : finalRun? s p = some run) :
    Tableau.Sound (StandardForm.ofProgram p).tableau (StandardForm.ofProgram p).columnCount run.tableau := by
  obtain ⟨t, pivots, start, rfl⟩ := finalRun?_eq_some.mp hrun
  exact (StandardForm.start_sound (StandardForm.ofProgram_proper h) nonneg start).run nonneg _ _

/-- No column outside the artificial ones gains more than the tolerance at an optimum. -/
theorem entry_le_of_optimal (nonneg : 0 ≤ s.pivotTolerance) (hrun : finalRun? s p = some run)
    (optimal : run.stop = .optimal) {j : ℕ} (hj : j < (StandardForm.ofProgram p).artificialStart) :
    run.tableau.goal.entry j ≤ s.pivotTolerance := by
  obtain ⟨t, pivots, -, rfl⟩ := finalRun?_eq_some.mp hrun
  exact Tableau.run_optimal nonneg optimal hj

theorem status_of_start_infeasible {t : Tableau ℚ} {pivots : ℕ}
    (h : (StandardForm.ofProgram p).start s = .infeasible t pivots) : (solve s p).status = .infeasible := by
  rw [solve_of_start_infeasible h]
  rfl

theorem start_of_infeasible (h : (solve s p).status = .infeasible) :
    ∃ t pivots, (StandardForm.ofProgram p).start s = .infeasible t pivots := by
  cases start : (StandardForm.ofProgram p).start s with
  | feasible t pivots =>
    rw [solve_of_start_feasible start] at h
    split at h <;> cases h
  | infeasible t pivots => exact ⟨t, pivots, rfl⟩
  | limit pivots =>
    rw [solve, start] at h
    cases h

end Status

namespace StandardForm

/-! ## The reported point -/

theorem length_point {α : Type} [Scalar α] (f : StandardForm α) (t : Tableau α) :
    (f.point t).length = f.variableCount := by
  refine List.foldlRecOn (motive := fun values : List α => values.length = f.variableCount) t.rows _
    rfl fun values width r _ => ?_
  split
  · rw [List.length_modify, width]
  · exact width

end StandardForm

/-- **A solution measured at its point**: a quantity for each variable of the program, with the objective
and the usage of the constraints there. -/
structure Measured {α : Type} [Scalar α] (p : Program α) (tolerance : α) (a : Solution α) : Prop where
  names : a.names = p.names
  length : a.values.length = p.vars.length
  objective : a.objective = some (p.valueAt a.values)
  usage : a.usage = p.usage a.values tolerance

/-- **An optimum is measured at its point.** -/
theorem measured_of_optimal {α : Type} [Scalar α] {s : SolverSettings α} {p : Program α}
    (h : (solve s p).status = .optimal) : Measured p s.bindingTolerance (solve s p) := by
  obtain ⟨t, pivots, read⟩ := exists_solution_of_optimal h
  rw [read]
  exact ⟨rfl, (StandardForm.length_point _ t).trans StandardForm.variableCount_ofProgram, rfl, rfl⟩

namespace StandardForm

variable {f : StandardForm ℚ} {t : Tableau ℚ} {n : ℕ}

theorem snap_rat (x : ℚ) : snap x = if |x| < 1e-12 then 0 else x := by
  rw [snap, Scalar.abs_rat]
  rfl

@[simp] theorem snap_zero : snap (0 : ℚ) = 0 := by
  rw [snap_rat, ite_self]

theorem abs_snap_sub_lt (x : ℚ) : |snap x - x| < 1e-12 := by
  rw [snap_rat]
  split
  · next small => rwa [zero_sub, abs_neg]
  · norm_num

/-- Putting the basic quantities into a list of values, row by row. -/
theorem getElem?_foldl_point (rows : List (Row ℚ)) (nodup : (rows.map (·.basic)).Nodup)
    {values : List ℚ} (width : values.length = f.variableCount) (j : ℕ) :
    (rows.foldl (fun values r => if r.basic < f.variableCount then
        values.modify r.basic (· + snap r.rhs) else values) values)[j]? =
      (values[j]?).map (· + ((rows.find? (·.basic == j)).map fun r => snap r.rhs).getD 0) := by
  induction rows generalizing values with
  | nil => simp
  | cons r rows ih =>
    obtain ⟨fresh, nodup⟩ := List.nodup_cons.mp nodup
    -- no later row has the basic column of this one
    have absent : rows.find? (·.basic == r.basic) = none := by
      rw [List.find?_eq_none]
      intro q hq same
      exact fresh (List.mem_map.mpr ⟨q, hq, beq_iff_eq.mp same⟩)
    rw [List.foldl_cons, ih nodup (by split <;> simp [width])]
    by_cases here : r.basic = j
    · subst here
      rw [List.find?_cons, beq_self_eq_true, absent]
      split
      · simp [Function.comp_def]
      · next outside => simp [width, not_lt.mp outside]
    · rw [List.find?_cons, beq_eq_false_iff_ne.mpr here]
      split
      · rw [List.getElem?_modify_ne _ _ here]
      · rfl

/-- **The reported point is the vertex of the last tableau, without its dust.** -/
theorem point_eq (h : t.Canonical n) : f.point t = f.corner fun j => snap (t.vertex j) := by
  apply List.ext_getElem?
  intro j
  rw [point, getElem?_foldl_point t.rows h.nodup_basic rfl, getElem?_corner]
  have value : ((t.rows.find? (·.basic == j)).map fun r => snap r.rhs).getD 0 = snap (t.vertex j) := by
    rw [Tableau.vertex, Tableau.onBasis]
    cases t.rows.find? (·.basic == j) with
    | none => exact snap_zero.symm
    | some r => rfl
  rw [value]

end StandardForm

end Allotment.Simplex
