import Allotment.Proofs.Simplex.Endless
import Allotment.Proofs.Simplex.Outcome
import Allotment.Proofs.Simplex.Ready

/-!
# Enough pivots

Without tolerances neither phase goes on for ever, so with enough pivots allowed no solution is cut
short. Each phase is a run from a canonical and feasible tableau, for
which `Tableau.exists_budget` gives a number of pivots. How many the second phase needs depends on
where it starts, but that no longer changes once the first phase is given enough.
-/

namespace Allotment.Simplex
set_option autoImplicit false

namespace StandardForm

variable {f : StandardForm ℚ} {cap cap' : ℕ} {tolerance binding : ℚ}

/-- A first phase that is not cut short does not depend on the cap. -/
theorem firstRun_of_le (more : cap ≤ cap') (ends : (f.firstRun ⟨cap, tolerance, binding⟩).stop ≠ .limit) :
    f.firstRun ⟨cap', tolerance, binding⟩ = f.firstRun ⟨cap, tolerance, binding⟩ :=
  Tableau.runFrom_of_le (Nat.sub_le_sub_right more 0) ends

theorem start_of_le (more : cap ≤ cap') (ends : (f.firstRun ⟨cap, tolerance, binding⟩).stop ≠ .limit) :
    f.start ⟨cap', tolerance, binding⟩ = f.start ⟨cap, tolerance, binding⟩ := by
  rw [start, start, firstPhase_eq, firstPhase_eq, firstRun_of_le more ends]

/-- **With enough pivots the first phase is not cut short.** -/
theorem exists_firstRun (proper : f.Proper) : ∃ enough, ∀ cap, enough ≤ cap →
    (f.firstRun ⟨cap, 0, 0⟩).stop ≠ .limit := by
  obtain ⟨enough, ends⟩ := Tableau.exists_budget (firstStart_canonical proper)
    (firstStart_feasible proper) f.columnCount
  exact ⟨enough, fun cap ge => ends (cap - 0) ge 0⟩

/-- **With enough pivots the second phase is not cut short**, wherever it starts. -/
theorem exists_secondPhase {t : Tableau ℚ} (ready : f.Ready t) (pivots : ℕ) : ∃ enough, ∀ cap,
    enough ≤ cap → (f.secondPhase ⟨cap, 0, 0⟩ t pivots).stop ≠ .limit := by
  obtain ⟨enough, ends⟩ := Tableau.exists_budget ready.sound.canonical ready.feasible f.artificialStart
  refine ⟨pivots + enough, fun cap ge => ends (cap - pivots) ?_ pivots⟩
  omega

end StandardForm

/-- **No cycling.** For every valid program there are enough pivots: however many more are allowed,
without tolerances neither phase is cut short. -/
theorem exists_sufficient_pivots (p : Program ℚ) (valid : p.flaw? = none) :
    ∃ enough, ∀ cap, enough ≤ cap → (solve ⟨cap, 0, 0⟩ p).status ≠ .pivotLimit := by
  have proper := StandardForm.ofProgram_proper (p.flaw?_eq_none_iff.mp valid)
  obtain ⟨first, ends⟩ := StandardForm.exists_firstRun proper
  have same : ∀ cap, first ≤ cap → (StandardForm.ofProgram p).start ⟨cap, 0, 0⟩ =
      (StandardForm.ofProgram p).start ⟨first, 0, 0⟩ :=
    fun cap ge => StandardForm.start_of_le ge (ends first le_rfl)
  -- the second phase now starts at one tableau, whatever the cap
  cases start : (StandardForm.ofProgram p).start ⟨first, 0, 0⟩ with
  | limit pivots => exact absurd (StandardForm.start_eq_limit start) (ends first le_rfl)
  | infeasible t pivots =>
    refine ⟨first, fun cap ge => ?_⟩
    rw [status_of_start_infeasible ((same cap ge).trans start)]
    decide
  | feasible t pivots =>
    have ready := StandardForm.start_ready proper rfl rfl start
    obtain ⟨second, ends'⟩ := StandardForm.exists_secondPhase ready pivots
    refine ⟨max first second, fun cap ge => ?_⟩
    have here := (same cap (le_of_max_le_left ge)).trans start
    have stop := ends' cap (le_of_max_le_right ge)
    rw [status_of_finalRun? (finalRun?_eq_some.mpr ⟨t, pivots, here, rfl⟩)]
    cases ends : ((StandardForm.ofProgram p).secondPhase ⟨cap, 0, 0⟩ t pivots).stop with
    | limit => exact absurd ends stop
    | unbounded => decide
    | optimal => decide

theorem exists_sufficient_pivots_sample : Program.sample.flaw? = none ∧
    ∃ enough, ∀ cap, enough ≤ cap → (solve ⟨cap, 0, 0⟩ Program.sample).status ≠ .pivotLimit :=
  ⟨Program.flaw?_sample, exists_sufficient_pivots Program.sample Program.flaw?_sample⟩

end Allotment.Simplex
