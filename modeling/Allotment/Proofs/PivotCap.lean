import Allotment.Proofs.Simplex.Outcome

/-!
# What the cap on the pivots does

Both phases draw on one count of pivots, in which driving artificial columns out has no part, and that
nothing is left to do is noticed before the cap is. So the cap only cuts a solution short
(`solve_capped`): what takes no more pivots than another cap allows is the same under that cap, and what
takes more is cut short at exactly that many, whichever phase they end in. Nothing is asked of the
arithmetic here.
-/

namespace Allotment.Simplex
set_option autoImplicit false

variable {α : Type} [Scalar α]

/-- The pivots that the first phase takes. -/
def Start.pivots : Start α → ℕ
  | .feasible _ pivots => pivots
  | .infeasible _ pivots => pivots
  | .limit pivots => pivots

namespace StandardForm

variable {f : StandardForm α} {s : SolverSettings α} {cap' : ℕ}

theorem pivots_start (some : 0 < f.artificialCount) : (f.start s).pivots = (f.firstRun s).pivots := by
  rw [start_of_artificial some, firstPhase_eq]
  split
  · rfl
  · rfl
  · split <;> rfl

/-- The cap bounds the pivots of the first phase. -/
theorem pivots_start_le : (f.start s).pivots ≤ s.maxPivots := by
  by_cases some : 0 < f.artificialCount
  · rw [pivots_start some]
    exact Tableau.pivots_runFrom_bounds.2.trans (by omega)
  · rw [start_of_no_artificial some]
    exact Nat.zero_le _

/-- **A first phase that is cut short has spent the cap.** -/
theorem start_eq_limit_cap {pivots : ℕ} (cut : f.start s = .limit pivots) : pivots = s.maxPivots := by
  by_cases some : 0 < f.artificialCount
  · obtain ⟨stop, rfl⟩ := (start_eq_limit_iff some).mp cut
    exact (Tableau.pivots_runFrom_of_limit stop).trans (by omega)
  · rw [start_of_no_artificial some] at cut
    cases cut

/-- **Under another cap a first phase that ends is the same, or cut short.** -/
theorem start_eq_or_limit (cap : ℕ)
    (ends : ∀ pivots, f.start { s with maxPivots := cap' } ≠ .limit pivots) :
    f.start { s with maxPivots := cap } = f.start { s with maxPivots := cap' } ∨
      f.start { s with maxPivots := cap } = .limit cap ∧
        cap < (f.start { s with maxPivots := cap' }).pivots := by
  by_cases some : 0 < f.artificialCount
  · have stop : (f.firstRun { s with maxPivots := cap' }).stop ≠ .limit := fun cut =>
      ends _ ((start_eq_limit_iff some).mpr ⟨cut, rfl⟩)
    obtain same | ⟨cut, more⟩ := Tableau.runFrom_eq_or_limit cap stop
    · left
      change f.firstRun { s with maxPivots := cap } = f.firstRun { s with maxPivots := cap' } at same
      rw [start_of_artificial some, start_of_artificial some, firstPhase_eq, firstPhase_eq, same]
    · right
      have spent := Tableau.pivots_runFrom_of_limit cut
      rw [zero_add] at spent more
      exact ⟨(start_eq_limit_iff some).mpr ⟨cut, spent⟩, more.trans_eq (pivots_start some).symm⟩
  · left
    rw [start_of_no_artificial some, start_of_no_artificial some]

end StandardForm

open StandardForm

/-! ## Both phases -/

section Solve

variable {s : SolverSettings α} {p : Program α} {cap' : ℕ}

/-- The pivots that both phases take, where the second one is reached. -/
theorem pivots_secondPhase_bounds {t : Tableau α} {pivots : ℕ}
    (start : (ofProgram p).start s = .feasible t pivots) :
    pivots ≤ ((ofProgram p).secondPhase s t pivots).pivots ∧
      ((ofProgram p).secondPhase s t pivots).pivots ≤ s.maxPivots := by
  have first := pivots_start_le (f := ofProgram p) (s := s)
  rw [start] at first
  simp only [Start.pivots] at first
  exact ⟨Tableau.pivots_runFrom_bounds.1, Tableau.pivots_runFrom_bounds.2.trans (by omega)⟩

/-- What a solution whose second phase is reached reports of it. -/
theorem solve_of_secondPhase {t : Tableau α} {pivots : ℕ}
    (start : (ofProgram p).start s = .feasible t pivots) :
    (solve s p).pivots = ((ofProgram p).secondPhase s t pivots).pivots ∧
      ((solve s p).status = .pivotLimit ↔ ((ofProgram p).secondPhase s t pivots).stop = .limit) := by
  rw [solve_of_start_feasible start]
  cases stop : ((ofProgram p).secondPhase s t pivots).stop with
  | limit => exact ⟨rfl, iff_of_true rfl rfl⟩
  | unbounded => exact ⟨rfl, iff_of_false nofun nofun⟩
  | optimal => exact ⟨rfl, iff_of_false nofun nofun⟩

/-- **No solution takes more pivots than the cap allows.** -/
theorem pivots_solve_le : (solve s p).pivots ≤ s.maxPivots := by
  have first := pivots_start_le (f := ofProgram p) (s := s)
  cases start : (ofProgram p).start s with
  | feasible t pivots =>
    rw [(solve_of_secondPhase start).1]
    exact (pivots_secondPhase_bounds start).2
  | infeasible t pivots =>
    rw [start] at first
    rw [solve_of_start_infeasible start]
    exact first
  | limit pivots =>
    rw [start] at first
    rw [solve_of_start_limit start]
    exact first

/-- **A solution that is cut short has spent the cap**, and carries nothing else. -/
theorem solve_of_pivotLimit (cut : (solve s p).status = .pivotLimit) :
    solve s p = .pivotLimit p s.maxPivots := by
  cases start : (ofProgram p).start s with
  | feasible t pivots =>
    have stop := (solve_of_secondPhase start).2.mp cut
    have bounds := pivots_secondPhase_bounds start
    have spent : ((ofProgram p).secondPhase s t pivots).pivots = pivots + (s.maxPivots - pivots) :=
      Tableau.pivots_runFrom_of_limit stop
    have total : ((ofProgram p).secondPhase s t pivots).pivots = s.maxPivots := by omega
    rw [solve_of_start_feasible start, stop, total]
  | infeasible t pivots =>
    rw [solve_of_start_infeasible start] at cut
    cases cut
  | limit pivots =>
    obtain rfl := start_eq_limit_cap start
    exact solve_of_start_limit start

/-- **Under another cap a solution that is not cut short is the same, or cut short.** -/
theorem solve_eq_or_limit (cap : ℕ)
    (ends : (solve { s with maxPivots := cap' } p).status ≠ .pivotLimit) :
    solve { s with maxPivots := cap } p = solve { s with maxPivots := cap' } p ∨
      (solve { s with maxPivots := cap } p).status = .pivotLimit ∧
        cap < (solve { s with maxPivots := cap' } p).pivots := by
  have first : ∀ pivots, (ofProgram p).start { s with maxPivots := cap' } ≠ .limit pivots := by
    intro pivots cut
    rw [solve_of_start_limit cut] at ends
    exact ends rfl
  have other := start_eq_or_limit cap first
  cases start : (ofProgram p).start { s with maxPivots := cap' } with
  | limit pivots => exact absurd start (first pivots)
  | infeasible t pivots =>
    rw [start] at other
    obtain same | ⟨cut, more⟩ := other
    · left
      rw [solve_of_start_infeasible same, solve_of_start_infeasible start]
    · right
      rw [solve_of_start_limit cut, solve_of_start_infeasible start]
      exact ⟨rfl, more⟩
  | feasible t pivots =>
    rw [start] at other
    obtain same | ⟨cut, more⟩ := other
    · -- the first phase is the same under both caps, and the second one draws on what is left of each
      have stop := fun cut => ends ((solve_of_secondPhase start).2.mpr cut)
      obtain same' | ⟨cut, more⟩ := Tableau.runFrom_eq_or_limit (cap - pivots) stop
      · left
        change (ofProgram p).secondPhase { s with maxPivots := cap } t pivots =
          (ofProgram p).secondPhase { s with maxPivots := cap' } t pivots at same'
        rw [solve_of_start_feasible same, solve_of_start_feasible start, same']
        rfl
      · right
        refine ⟨(solve_of_secondPhase same).2.mpr cut, ?_⟩
        have bounds := pivots_secondPhase_bounds same
        rw [(solve_of_secondPhase start).1]
        exact lt_of_le_of_lt (by omega) more
    · right
      have bounds := pivots_secondPhase_bounds start
      rw [solve_of_start_limit cut, (solve_of_secondPhase start).1]
      exact ⟨rfl, more.trans_le bounds.1⟩

end Solve

/-- **The cap only cuts a solution short**, for every program, all tolerances and every number system. No
solution takes more pivots than its cap; one that is cut short has spent it and has no point. And if
the solution under some cap is not cut short, then the solution under any other is the same where that
cap allows as many pivots, and is cut short at that cap where it does not. -/
theorem solve_capped (s : SolverSettings α) (p : Program α) (cap cap' : ℕ) :
    (solve { s with maxPivots := cap } p).pivots ≤ cap ∧
    ((solve { s with maxPivots := cap } p).status = .pivotLimit →
      (solve { s with maxPivots := cap } p).pivots = cap ∧
        (solve { s with maxPivots := cap } p).values = [] ∧
        (solve { s with maxPivots := cap } p).objective = none) ∧
    ((solve { s with maxPivots := cap' } p).status ≠ .pivotLimit →
      ((solve { s with maxPivots := cap' } p).pivots ≤ cap →
        solve { s with maxPivots := cap } p = solve { s with maxPivots := cap' } p) ∧
      (cap < (solve { s with maxPivots := cap' } p).pivots →
        solve { s with maxPivots := cap } p = .pivotLimit p cap)) := by
  refine ⟨pivots_solve_le, fun cut => ?_, fun ends => ?_⟩
  · rw [solve_of_pivotLimit cut]
    exact ⟨rfl, rfl, rfl⟩
  · have bound := pivots_solve_le (s := { s with maxPivots := cap }) (p := p)
    obtain same | ⟨cut, more⟩ := solve_eq_or_limit cap ends
    · refine ⟨fun _ => same, fun short => ?_⟩
      rw [same] at bound
      exact absurd bound short.not_ge
    · exact ⟨fun enough => absurd enough more.not_ge, fun _ => solve_of_pivotLimit cut⟩

/-- Of its two pivots the sample takes one in each phase, so a cap of none cuts the first phase short
and a cap of one the second. -/
theorem solve_capped_sample :
    ((solve ⟨100, 0, 0⟩ Program.sample).status ≠ .pivotLimit ∧
      (solve ⟨100, 0, 0⟩ Program.sample).pivots = 2) ∧
    solve ⟨0, 0, 0⟩ Program.sample = .pivotLimit Program.sample 0 ∧
    solve ⟨1, 0, 0⟩ Program.sample = .pivotLimit Program.sample 1 ∧
    solve ⟨2, 0, 0⟩ Program.sample = solve ⟨100, 0, 0⟩ Program.sample := by
  have ends : (solve ⟨100, 0, 0⟩ Program.sample).status ≠ .pivotLimit := by decide +kernel
  have taken : (solve ⟨100, 0, 0⟩ Program.sample).pivots = 2 := by decide +kernel
  have under := fun cap => (solve_capped ⟨100, 0, 0⟩ Program.sample cap 100).2.2 ends
  rw [taken] at under
  exact ⟨⟨ends, taken⟩, (under 0).2 (by omega), (under 1).2 (by omega), (under 2).1 le_rfl⟩

end Allotment.Simplex
