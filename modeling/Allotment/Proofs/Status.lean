import Allotment.Proofs.Simplex.Duality
import Allotment.Proofs.Simplex.Outcome

/-!
# What the status of a solution means

Without tolerances each status is exact. At an optimum the vertex of the last tableau is a feasible
point that no other beats, by weak duality: no column of the objective line gains. An infeasible
program has no feasible point, since one would leave the first phase no shortfall. An unbounded one
has feasible points along a ray whose objective passes every value.
-/

namespace Allotment.Simplex
set_option autoImplicit false

open StandardForm

/-- **How an exact point is reported**: quantity by quantity and closely, with a quantity that is
hardly above its lower bound put at the bound. -/
structure ReportedAs (p : Program ℚ) (x values : List ℚ) : Prop where
  length : values.length = x.length
  close : ∀ (j : ℕ) (q value : ℚ), x[j]? = some q → values[j]? = some value → |value - q| < 1e-12
  moved : ∀ (j : ℕ) (v : Variable ℚ) (q value : ℚ), p.vars[j]? = some v → x[j]? = some q →
    values[j]? = some value → value ≠ q → |q - v.lower| < 1e-12 ∧ value = v.lower

theorem reportedAs_corner (p : Program ℚ) (z : ℕ → ℚ) :
    ReportedAs p ((ofProgram p).corner z) ((ofProgram p).corner fun j => snap (z j)) := by
  refine ⟨by rw [length_corner, length_corner], fun j q value hq hvalue => ?_,
    fun j v q value hv hq hvalue ne => ?_⟩
  · rw [getElem?_corner, Option.map_eq_some_iff] at hq hvalue
    obtain ⟨bound, hbound, rfl⟩ := hq
    obtain ⟨bound', hbound', rfl⟩ := hvalue
    obtain rfl := Option.some.inj (hbound.symm.trans hbound')
    rw [add_sub_add_left_eq_sub]
    exact abs_snap_sub_lt _
  · rw [getElem?_corner, lower_ofProgram, hv, Option.map_some, Option.map_some] at hq hvalue
    obtain rfl := Option.some.inj hq
    obtain rfl := Option.some.inj hvalue
    rw [snap_rat] at ne ⊢
    split at ne
    · next small =>
      rw [if_pos small, add_sub_cancel_left, add_zero]
      exact ⟨small, rfl⟩
    · exact absurd rfl ne

section

variable {s : SolverSettings ℚ} {p : Program ℚ} {run : Run ℚ} (h : p.WellFormed)
  (sharp : s.pivotTolerance = 0) (binding : s.bindingTolerance = 0)
include h sharp binding

/-- **Without tolerances the second phase ends ready.** -/
theorem ready_finalRun? (hrun : finalRun? s p = some run) : (ofProgram p).Ready run.tableau := by
  obtain ⟨t, pivots, start, rfl⟩ := finalRun?_eq_some.mp hrun
  exact (start_ready (ofProgram_proper h) sharp binding start).run sharp pivots

omit h binding in
/-- No column outside the artificial ones gains at an optimum. -/
theorem loses_of_optimal (hrun : finalRun? s p = some run) (optimal : run.stop = .optimal) {j : ℕ}
    (hj : j < (ofProgram p).artificialStart) : run.tableau.goal.entry j ≤ 0 :=
  (entry_le_of_optimal sharp.ge hrun optimal hj).trans sharp.le

omit h binding in
/-- Some column outside the artificial ones gains without limit at an unbounded end. -/
theorem gains_of_unbounded (hrun : finalRun? s p = some run) (unbounded : run.stop = .unbounded) :
    ∃ column < (ofProgram p).artificialStart, 0 < run.tableau.goal.entry column ∧
      ∀ r ∈ run.tableau.rows, r.entry column ≤ 0 := by
  obtain ⟨t, pivots, -, rfl⟩ := finalRun?_eq_some.mp hrun
  obtain ⟨column, inside, gains, limits⟩ := Tableau.run_unbounded unbounded
  exact ⟨column, inside, sharp.ge.trans_lt gains, fun r hr => (limits r hr).trans sharp.le⟩

omit sharp binding in
theorem feasible_vertex {t : Tableau ℚ} (ready : (ofProgram p).Ready t) :
    p.Feasible ((ofProgram p).corner t.vertex) :=
  (feasible_corner_iff h).mpr ⟨fun j _ => ready.nonneg_vertex j, ready.meets_vertex (ofProgram_proper h)⟩

/-- **No feasible point beats the vertex of an optimal tableau.** -/
theorem not_beats_vertex (hrun : finalRun? s p = some run) (optimal : run.stop = .optimal) {y : List ℚ}
    (feasible : p.Feasible y) : ¬p.Beats y ((ofProgram p).corner run.tableau.vertex) := by
  have ready := ready_finalRun? h sharp binding hrun
  have restored := corner_shifted_of_within feasible.within
  rw [← restored] at feasible ⊢
  obtain ⟨nonneg, meets⟩ := (feasible_corner_iff h).mp feasible
  have bound := ready.weigh_gains_le (ofProgram_proper h)
    (fun j hj => loses_of_optimal sharp hrun optimal hj) nonneg meets
  rw [Program.Beats, improvement_corner h]
  linarith

theorem exists_optimum (optimal : (solve s p).status = .optimal) : ∃ x, p.Feasible x ∧
    (∀ y, p.Feasible y → ¬p.Beats y x) ∧ ReportedAs p x (solve s p).values := by
  obtain ⟨run, hrun, stop, solution⟩ := exists_run_of_optimal optimal
  have ready := ready_finalRun? h sharp binding hrun
  refine ⟨_, feasible_vertex h ready, fun y => not_beats_vertex h sharp binding hrun stop, ?_⟩
  have values : (solve s p).values = (ofProgram p).point run.tableau := by
    rw [solution]
    rfl
  rw [values, point_eq ready.sound.canonical]
  exact reportedAs_corner p _

theorem not_feasible_of_infeasible (infeasible : (solve s p).status = .infeasible) (x : List ℚ) :
    ¬p.Feasible x := by
  intro feasible
  obtain ⟨t, pivots, start⟩ := start_of_infeasible infeasible
  have restored := corner_shifted_of_within feasible.within
  rw [← restored] at feasible
  obtain ⟨nonneg, meets⟩ := (feasible_corner_iff h).mp feasible
  exact start_infeasible (ofProgram_proper h) sharp binding start (lift_nonneg nonneg) lift_genuine
    (solves_lift (ofProgram_proper h) meets)

theorem exists_better_of_unbounded (unbounded : (solve s p).status = .unbounded) (value : ℚ) :
    ∃ x, p.Feasible x ∧ 0 < p.objective.sense.improvement (p.valueAt x) value := by
  obtain ⟨run, hrun, stop⟩ := exists_run_of_unbounded unbounded
  have ready := ready_finalRun? h sharp binding hrun
  have proper := ofProgram_proper h
  obtain ⟨column, inside, gains, unlimited⟩ := gains_of_unbounded sharp hrun stop
  have free := fun basic => gains.ne' (ready.sound.canonical.goal_of_mem basic)
  -- far enough out the gain makes up for the start of the ray and for the value to be passed
  obtain ⟨far, enough⟩ := exists_lt_nsmul gains
    (p.objective.sense.improvement value (p.valueAt ((ofProgram p).corner 0)) + run.tableau.goal.rhs)
  rw [nsmul_eq_mul] at enough
  have hfar : (0 : ℚ) ≤ far := Nat.cast_nonneg far
  refine ⟨_, (feasible_corner_iff h).mpr ⟨fun j _ =>
    ready.sound.canonical.nonneg_along ready.feasible free unlimited hfar j,
    ready.meets_along proper inside free unlimited hfar⟩, ?_⟩
  have better := improvement_corner h (w := 0)
    (z := run.tableau.vertex + (far : ℚ) • run.tableau.ray column)
  rw [ready.weigh_gains_along, weigh_zero] at better
  simp only [Sense.improvement] at better enough ⊢
  linarith

end

/-- **Each status is exact**, for every valid program and every cap on the pivots, when the
tolerances are zero: an optimum stands for a feasible point that no other beats, an infeasible
program has no feasible point, and an unbounded one has feasible points better than any value. -/
theorem solve_status_exact (s : SolverSettings ℚ) (p : Program ℚ) (valid : p.flaw? = none)
    (sharp : s.pivotTolerance = 0) (binding : s.bindingTolerance = 0) :
    ((solve s p).status = .optimal → ∃ x, p.Feasible x ∧ (∀ y, p.Feasible y → ¬p.Beats y x) ∧
      ReportedAs p x (solve s p).values) ∧
    ((solve s p).status = .infeasible → ∀ x, ¬p.Feasible x) ∧
    ((solve s p).status = .unbounded → (∃ x, p.Feasible x) ∧
      ∀ value, ∃ x, p.Feasible x ∧ 0 < p.objective.sense.improvement (p.valueAt x) value) := by
  have h := p.flaw?_eq_none_iff.mp valid
  refine ⟨exists_optimum h sharp binding, not_feasible_of_infeasible h sharp binding, fun unbounded => ?_⟩
  have better := exists_better_of_unbounded h sharp binding unbounded
  obtain ⟨x, feasible, -⟩ := better 0
  exact ⟨⟨x, feasible⟩, better⟩

theorem solve_status_exact_sample :
    (Program.sample.flaw? = none ∧ (solve ⟨100, 0, 0⟩ Program.sample).status = .optimal) ∧
      ∃ x, Program.sample.Feasible x ∧ (∀ y, Program.sample.Feasible y → ¬Program.sample.Beats y x) ∧
        ReportedAs Program.sample x (solve ⟨100, 0, 0⟩ Program.sample).values :=
  have optimal : (solve ⟨100, 0, 0⟩ Program.sample).status = .optimal := by decide +kernel
  ⟨⟨Program.flaw?_sample, optimal⟩,
    (solve_status_exact ⟨100, 0, 0⟩ Program.sample Program.flaw?_sample rfl rfl).1 optimal⟩

end Allotment.Simplex
