import Allotment.Proofs.Relaxation

/-!
# Dual values and finite differences

The two ways of pricing a constraint do not always agree: where an optimum has several systems of
prices the last tableau shows one of them (`doubled_prices_differ`), while a finite difference always
finds the least price of the constraint. That is what holds of them, for all steps that are small
enough and leave no quantity of the relaxed program that is taken for dust: the finite difference is the
least price, and it is the dual value just where the dual value is the least price too, or where the
relaxed program has no optimum and the dual value stands in.
-/

namespace Allotment
set_option autoImplicit false

open Simplex Simplex.StandardForm

/-- The price that a method gives the constraint at a place of the table. -/
def Pricer.priceBy (r : Pricer ℚ) (method : PricingMethod ℚ) (p : Program ℚ) (s : Solution ℚ) (k : ℕ) : ℚ :=
  ({ r with method }.table p s).prices.getD k 0

section Price

variable {r : Pricer ℚ} {method : PricingMethod ℚ} {p : Program ℚ} {s : Solution ℚ} {value : ℚ} {k : ℕ}
  {c : Constraint ℚ}

theorem priceBy_eq (optimum : s.optimum? p.vars.length = some value) (hc : p.constraints[k]? = some c) :
    r.priceBy method p s k = ({ r with method }.constraintPrice p s value c k).price := by
  rw [Pricer.priceBy, PriceTable.prices, List.getD_eq_getElem?_getD, List.getElem?_map,
    getElem?_table optimum, hc]
  rfl

theorem isBinding_zero_iff (slack : ℚ) : isBinding slack 0 = true ↔ slack = 0 := by
  rw [isBinding, decide_eq_true_eq, Scalar.abs_rat, abs_nonpos_iff]

variable (tolerance : r.bindingTolerance = 0) (optimum : s.optimum? p.vars.length = some value)
  (hc : p.constraints[k]? = some c)
include tolerance optimum hc

theorem priceBy_of_slack (free : c.slack (c.consumed s.values) ≠ 0) : r.priceBy method p s k = 0 := by
  rw [priceBy_eq optimum hc]
  simp only [Pricer.constraintPrice, tolerance]
  rw [if_neg fun binding => free ((isBinding_zero_iff _).mp binding)]

section Binding

variable (tight : c.slack (c.consumed s.values) = 0)
include tight

theorem priceBy_of_binding (method : PricingMethod ℚ) :
    r.priceBy method p s k = ({ r with method } : Pricer ℚ).bindingPrice p s k value := by
  rw [priceBy_eq optimum hc]
  simp only [Pricer.constraintPrice, tolerance]
  rw [if_pos ((isBinding_zero_iff _).mpr tight)]

theorem priceBy_dual : r.priceBy .dual p s k = s.duals.getD k 0 := by
  rw [priceBy_of_binding tolerance optimum hc tight, Pricer.bindingPrice]

/-- The finite difference where the relaxed program has an optimum. -/
theorem priceBy_difference_of_optimal {step : ℚ} {y : List ℚ}
    (optimal : (solve r.solver (p.relaxed k step)).status = .optimal)
    (objective : (solve r.solver (p.relaxed k step)).objective = some ((p.relaxed k step).valueAt y)) :
    r.priceBy (.finiteDifference step) p s k = (p.valueAt y - value) / step := by
  rw [priceBy_of_binding tolerance optimum hc tight]
  simp only [Pricer.bindingPrice, Pricer.slope?, Solution.isOptimal, optimal, objective, beq_self_eq_true,
    if_true, Option.map_some, Option.getD_some]
  rfl

/-- The dual value stands in where the relaxed program is infeasible. -/
theorem priceBy_difference_of_infeasible {step : ℚ}
    (infeasible : (solve r.solver (p.relaxed k step)).status = .infeasible) :
    r.priceBy (.finiteDifference step) p s k = s.duals.getD k 0 := by
  rw [priceBy_of_binding tolerance optimum hc tight]
  simp only [Pricer.bindingPrice, Pricer.slope?, Solution.isOptimal, infeasible]
  rfl

end Binding

end Price

/-- A program with an optimum is not unbounded when a constraint is relaxed. -/
theorem not_unbounded_relaxed {s : SolverSettings ℚ} {p : Program ℚ} (h : p.WellFormed)
    (sharp : s.pivotTolerance = 0) (binding : s.bindingTolerance = 0) {value : ℚ} {prices : List ℚ}
    (priced : p.PricedBy value prices) {k : ℕ} (inside : k < p.constraints.length) (step : ℚ) :
    (solve s (p.relaxed k step)).status ≠ .unbounded := by
  intro unbounded
  obtain ⟨y, feasible, better⟩ := exists_better_of_unbounded (h.relaxed k step) sharp binding unbounded
    (value + prices.getD k 0 * step)
  have cost := priced.improvement_relaxed_le inside feasible
  change 0 < p.objective.sense.sign * (p.valueAt y - (value + prices.getD k 0 * step)) at better
  linarith

/-- Steps that are small enough for every constraint. -/
theorem exists_small_step_all {p : Program ℚ} (h : p.WellFormed) {x : List ℚ} (feasible : p.Feasible x)
    {prices : List ℚ} (priced : p.PricedBy (p.valueAt x) prices) :
    ∃ small, 0 < small ∧ ∀ step, 0 < step → step ≤ small → ∀ k < p.constraints.length,
      ∀ (y prices' : List ℚ), (p.relaxed k step).Feasible y →
        (p.relaxed k step).PricedBy (p.valueAt y) prices' →
        p.LeastPrice (p.valueAt x) k ((p.valueAt y - p.valueAt x) / step) := by
  have each : ∀ k ∈ Finset.range p.constraints.length, ∀ᶠ step in nhdsWithin (0 : ℚ) (Set.Ioi 0),
      ∀ (y prices' : List ℚ), (p.relaxed k step).Feasible y →
        (p.relaxed k step).PricedBy (p.valueAt y) prices' →
        p.LeastPrice (p.valueAt x) k ((p.valueAt y - p.valueAt x) / step) := by
    intro k hk
    obtain ⟨small, pos, least⟩ := exists_small_step h feasible priced (Finset.mem_range.mp hk)
    exact mem_nhdsGT_iff_exists_Ioc_subset.mpr ⟨small, pos, fun step mem => least step mem.1 mem.2⟩
  obtain ⟨small, pos, least⟩ :=
    mem_nhdsGT_iff_exists_Ioc_subset.mp ((Finset.range p.constraints.length).eventually_all.mpr each)
  exact ⟨small, pos, fun step low high k hk => least ⟨low, high⟩ k (Finset.mem_range.mpr hk)⟩

/-! ## A program with two systems of prices -/

/-- A program whose one limit is stated twice. -/
def doubled : Program ℚ where
  vars := [⟨"x", 0, none⟩]
  objective := ⟨.maximize, [1]⟩
  constraints := [⟨"A", [1], .atMost, 1⟩, ⟨"B", [1], .atMost, 1⟩]

namespace Doubled

/-- The first tableau when the first limit is relaxed. -/
def first (step : ℚ) : Tableau ℚ :=
  ⟨[⟨⟨[1, 1, 0], 1 + step⟩, 1⟩, ⟨⟨[1, 0, 1], 1⟩, 2⟩], ⟨[1, 0, 0], 0⟩⟩

/-- The last tableau: the second row has been solved for the variable. -/
def last (step : ℚ) : Tableau ℚ :=
  ⟨[⟨⟨[0, 1, -1], step⟩, 1⟩, ⟨⟨[1, 0, 1], 1⟩, 0⟩], ⟨[0, 0, -1], -1⟩⟩

/-- The dual values price the first of the two statements. -/
theorem dual_price :
    Pricer.priceBy ⟨0, .dual, ⟨100, 0, 0⟩⟩ .dual doubled (solve ⟨100, 0, 0⟩ doubled) 0 = 1 := by
  decide +kernel

variable (step : ℚ)

theorem pivot_first : (first step).pivot 1 0 = last step := by
  simp [first, last, Tableau.pivot, Line.divide, Line.clear, Line.subtract, Line.entry]

theorem step_last (cautious : Bool) : (last step).step 0 3 cautious = .optimal := by
  cases cautious <;> rfl

variable (pos : 0 < step)
include pos

theorem ofProgram_relaxed : ofProgram (doubled.relaxed 0 step) =
    ⟨[0], [⟨[1], .atMost, 1 + step, false⟩, ⟨[1], .atMost, 1, false⟩], [1]⟩ := by
  have nonneg : ¬1 + step < 0 := by linarith
  simp [ofProgram, doubled, Program.relaxed, Constraint.relaxed, StandardRow.normalize,
    Relation.relaxationSign, dot, sum, Sense.sign, nonneg]

theorem start_relaxed : (ofProgram (doubled.relaxed 0 step)).start ⟨100, 0, 0⟩ = .feasible (first step) 0 := by
  rw [ofProgram_relaxed step pos]
  rfl

/-- The relaxed limit is not the one that is reached first. -/
theorem step_first : (first step).step 0 3 false = .pivot 1 0 := by
  have positive : 0 < 1 + step := by linarith
  have leaves : (first step).leaving? 0 0 = some 1 := by
    simp [first, Tableau.leaving?, Tableau.candidates, Line.entry, Candidate.choose, Candidate.beats,
      positivePart, positive, pos]
  rw [Tableau.step, show (first step).entering? 0 3 false = some 0 from rfl]
  simp only [leaves]

theorem secondPhase_first : (ofProgram (doubled.relaxed 0 step)).secondPhase ⟨100, 0, 0⟩ (first step) 0 =
    ⟨.optimal, last step, 1⟩ := by
  rw [ofProgram_relaxed step pos]
  change Tableau.runFrom 0 3 100 0 0 (first step) = _
  rw [Tableau.runFrom_eq, show decide (degenerateStreakLimit ≤ 0) = false from rfl, step_first step pos]
  simp only
  rw [pivot_first, Tableau.runFrom_eq, step_last]

theorem point_last : (ofProgram (doubled.relaxed 0 step)).point (last step) = [1] := by
  rw [ofProgram_relaxed step pos]
  norm_num [point, last, variableCount, snap, snapWidth]

theorem solve_relaxed : (solve ⟨100, 0, 0⟩ (doubled.relaxed 0 step)).status = .optimal ∧
    (solve ⟨100, 0, 0⟩ (doubled.relaxed 0 step)).objective = some ((doubled.relaxed 0 step).valueAt [1]) := by
  rw [solve_of_start_feasible (start_relaxed step pos), secondPhase_first step pos]
  exact ⟨rfl, congrArg (fun x => some ((doubled.relaxed 0 step).valueAt x)) (point_last step pos)⟩

theorem dustless_last : (ofProgram (doubled.relaxed 0 step)).Dustless (last step) := by
  rw [ofProgram_relaxed step pos]
  norm_num [StandardForm.Dustless, last, variableCount, snap, snapWidth]

/-- The one quantity of the relaxed program is no dust, however small the step. -/
theorem dustless_relaxed : ∀ run ∈ finalRun? ⟨100, 0, 0⟩ (doubled.relaxed 0 step),
    (ofProgram (doubled.relaxed 0 step)).Dustless run.tableau := by
  intro run hrun
  obtain ⟨t, pivots, start, rfl⟩ := finalRun?_eq_some.mp hrun
  cases (start_relaxed step pos).symm.trans start
  rw [secondPhase_first step pos]
  exact dustless_last step pos

/-- Relaxing the first of the two alone gains nothing. -/
theorem difference_price : Pricer.priceBy ⟨0, .dual, ⟨100, 0, 0⟩⟩ (.finiteDifference step) doubled
    (solve ⟨100, 0, 0⟩ doubled) 0 = 0 := by
  obtain ⟨optimal, objective⟩ := solve_relaxed step pos
  have optimum : (solve ⟨100, 0, 0⟩ doubled).optimum? doubled.vars.length = some (doubled.valueAt [1]) := by
    decide +kernel
  have tight : (⟨"A", [1], .atMost, 1⟩ : Constraint ℚ).slack
      ((⟨"A", [1], .atMost, 1⟩ : Constraint ℚ).consumed (solve ⟨100, 0, 0⟩ doubled).values) = 0 := by
    decide +kernel
  rw [priceBy_difference_of_optimal (r := ⟨0, .dual, ⟨100, 0, 0⟩⟩) rfl optimum rfl tight optimal objective,
    sub_self, zero_div]

end Doubled

/-! ## Both ways of pricing -/

/-- **What the two ways of pricing have to do with each other**, for every valid program with an optimum,
without tolerances and dust: at every constraint and for every step that is small enough the finite
difference is the least price, as long as the relaxed program has an optimum. It is never above the
dual value in the sense of the program, and the two are equal just where the dual value is the least
price or the relaxed program is infeasible.

Nothing is said of a step whose relaxed program is not solved to the end, or has a quantity at its last
tableau that the point takes for dust. Such steps can be all the smallest ones: where `x` is maximized
up to a limit of zero, every step below `snapWidth` gains nothing. -/
theorem finite_difference_least (s : SolverSettings ℚ) (p : Program ℚ) (valid : p.flaw? = none)
    (sharp : s.pivotTolerance = 0) (binding : s.bindingTolerance = 0)
    (optimal : (solve s p).status = .optimal)
    (dustless : ∀ run ∈ finalRun? s p, (ofProgram p).Dustless run.tableau) (r : Pricer ℚ)
    (tolerance : r.bindingTolerance = 0) (sharp' : r.solver.pivotTolerance = 0)
    (binding' : r.solver.bindingTolerance = 0) :
    ∃ value, (solve s p).objective = some value ∧ ∃ small, 0 < small ∧ ∀ step, 0 < step → step ≤ small →
      ∀ k < p.constraints.length, (solve r.solver (p.relaxed k step)).status ≠ .pivotLimit →
        (∀ run ∈ finalRun? r.solver (p.relaxed k step),
          (ofProgram (p.relaxed k step)).Dustless run.tableau) →
        p.objective.sense.sign * r.priceBy (.finiteDifference step) p (solve s p) k ≤
            p.objective.sense.sign * r.priceBy .dual p (solve s p) k ∧
          (r.priceBy (.finiteDifference step) p (solve s p) k = r.priceBy .dual p (solve s p) k ↔
            (solve r.solver (p.relaxed k step)).status = .infeasible ∨
              p.LeastPrice value k (r.priceBy .dual p (solve s p) k)) ∧
          ((solve r.solver (p.relaxed k step)).status ≠ .infeasible →
            p.LeastPrice value k (r.priceBy (.finiteDifference step) p (solve s p) k)) := by
  have h := p.flaw?_eq_none_iff.mp valid
  obtain ⟨feasible, objective, priced, tight⟩ := exists_priced_optimum h sharp binding optimal dustless
  have optimum := (optimum?_eq optimal feasible.within.length_eq.symm).trans objective
  obtain ⟨small, pos, least⟩ := exists_small_step_all h feasible priced
  refine ⟨_, objective, small, pos, fun step low high k inside ended dustless' => ?_⟩
  have hc := List.getElem?_eq_getElem inside
  by_cases slack : (p.constraints[k]).slack ((p.constraints[k]).consumed (solve s p).values) = 0
  · rw [priceBy_dual tolerance optimum hc slack]
    cases status : (solve r.solver (p.relaxed k step)).status with
    | pivotLimit => exact absurd status ended
    | unbounded => exact absurd status (not_unbounded_relaxed h sharp' binding' priced inside step)
    | infeasible =>
      rw [priceBy_difference_of_infeasible tolerance optimum hc slack status]
      exact ⟨le_rfl, iff_of_true rfl (.inl rfl), fun other => absurd rfl other⟩
    | optimal =>
      obtain ⟨reached, objective', priced', -⟩ :=
        exists_priced_optimum (h.relaxed k step) sharp' binding' status dustless'
      have cheapest := least step low high k inside _ _ reached priced'
      rw [priceBy_difference_of_optimal tolerance optimum hc slack status objective']
      refine ⟨cheapest.least _ priced, ⟨fun same => .inr (same ▸ cheapest), fun agrees => ?_⟩, fun _ => cheapest⟩
      obtain other | agrees := agrees
      · cases other
      · exact cheapest.unique agrees
  · have zero : (solve s p).duals.getD k 0 = 0 := by_contra fun priced => slack (tight k _ hc priced)
    have cheapest : p.LeastPrice (p.valueAt (solve s p).values) k 0 :=
      ⟨⟨_, priced, zero⟩, fun prices others => by rw [others.eq_zero_of_slack feasible hc slack]⟩
    rw [priceBy_of_slack tolerance optimum hc slack, priceBy_of_slack tolerance optimum hc slack]
    exact ⟨le_rfl, iff_of_true rfl (.inr cheapest), fun _ => cheapest⟩

theorem finite_difference_least_doubled : (doubled.flaw? = none ∧
      (solve ⟨100, 0, 0⟩ doubled).status = .optimal ∧
      ∀ run ∈ finalRun? ⟨100, 0, 0⟩ doubled, (ofProgram doubled).Dustless run.tableau) ∧
    ∃ value, (solve ⟨100, 0, 0⟩ doubled).objective = some value ∧ ∃ small, 0 < small ∧
      ∀ step, 0 < step → step ≤ small →
        (∀ k < doubled.constraints.length,
          (solve ⟨100, 0, 0⟩ (doubled.relaxed k step)).status ≠ .pivotLimit →
          (∀ run ∈ finalRun? ⟨100, 0, 0⟩ (doubled.relaxed k step),
            (ofProgram (doubled.relaxed k step)).Dustless run.tableau) →
          (solve ⟨100, 0, 0⟩ (doubled.relaxed k step)).status ≠ .infeasible →
          doubled.LeastPrice value k (Pricer.priceBy ⟨0, .dual, ⟨100, 0, 0⟩⟩ (.finiteDifference step) doubled
            (solve ⟨100, 0, 0⟩ doubled) k)) ∧
        ((solve ⟨100, 0, 0⟩ (doubled.relaxed 0 step)).status = .optimal ∧
          ∀ run ∈ finalRun? ⟨100, 0, 0⟩ (doubled.relaxed 0 step),
            (ofProgram (doubled.relaxed 0 step)).Dustless run.tableau) ∧
        doubled.LeastPrice value 0 (Pricer.priceBy ⟨0, .dual, ⟨100, 0, 0⟩⟩ (.finiteDifference step) doubled
          (solve ⟨100, 0, 0⟩ doubled) 0) ∧
        ¬doubled.LeastPrice value 0 (Pricer.priceBy ⟨0, .dual, ⟨100, 0, 0⟩⟩ .dual doubled
          (solve ⟨100, 0, 0⟩ doubled) 0) := by
  have valid : doubled.flaw? = none := by decide +kernel
  have optimal : (solve ⟨100, 0, 0⟩ doubled).status = .optimal := by decide +kernel
  have dustless : ∀ run ∈ finalRun? ⟨100, 0, 0⟩ doubled, (ofProgram doubled).Dustless run.tableau := by
    decide +kernel
  obtain ⟨value, objective, small, pos, compared⟩ := finite_difference_least ⟨100, 0, 0⟩ doubled valid rfl rfl
    optimal dustless ⟨0, .dual, ⟨100, 0, 0⟩⟩ rfl rfl rfl
  refine ⟨⟨valid, optimal, dustless⟩, value, objective, small, pos, fun step low high =>
    ⟨fun k inside ended dustless' => (compared step low high k inside ended dustless').2.2, ?_⟩⟩
  -- the first statement of the limit relaxed
  have optimal' := (Doubled.solve_relaxed step low).1
  have dustless' := Doubled.dustless_relaxed step low
  obtain ⟨-, agree_iff, least⟩ :=
    compared step low high 0 (by decide) (by rw [optimal']; decide) dustless'
  refine ⟨⟨optimal', dustless'⟩, least (by rw [optimal']; decide), fun cheapest => ?_⟩
  have agree := agree_iff.mpr (.inr cheapest)
  rw [Doubled.difference_price step low, Doubled.dual_price] at agree
  exact zero_ne_one agree

/-- **Two prices for one constraint**: where the limit is stated twice the dual value prices one of the
statements, and relaxing that one alone gains nothing, however small the step. -/
theorem doubled_prices_differ : doubled.flaw? = none ∧ (solve ⟨100, 0, 0⟩ doubled).status = .optimal ∧
    Pricer.priceBy ⟨0, .dual, ⟨100, 0, 0⟩⟩ .dual doubled (solve ⟨100, 0, 0⟩ doubled) 0 = 1 ∧
    ∀ step, 0 < step → (solve ⟨100, 0, 0⟩ (doubled.relaxed 0 step)).status = .optimal ∧
      Pricer.priceBy ⟨0, .dual, ⟨100, 0, 0⟩⟩ (.finiteDifference step) doubled
        (solve ⟨100, 0, 0⟩ doubled) 0 = 0 := by
  exact ⟨by decide +kernel, by decide +kernel, Doubled.dual_price, fun step pos =>
    ⟨(Doubled.solve_relaxed step pos).1, Doubled.difference_price step pos⟩⟩

end Allotment
