import Allotment.Proofs.Vertex

/-!
# Reduced costs and dual values

A reduced cost is read off the column of a variable and the dual values off the columns of the slacks
and artificials, but both come from one line: the entry of the objective line in a column is the gain
of the column less what it takes up of every row, priced at the dual values of the rows
(`entry_goal_eq`). Some of these rows are upper bounds, which have no dual value in the solution. So
the reduced cost of a variable is its `Program.margin`, what a unit gains over what it takes up of the
constraints, less the price of its upper bound; and a bound that is not reached has no price.
-/

namespace Allotment
set_option autoImplicit false

/-- What a unit of a variable takes up of a constraint, counted in the direction of relaxing it. -/
def Program.uptake (p : Program ℚ) (k j : ℕ) : ℚ :=
  ((p.constraints[k]?).map fun c => c.relation.relaxationSign * c.coefficients.getD j 0).getD 0

/-- **What a unit of a variable gains over what it takes up** of the constraints at some prices. -/
def Program.margin (p : Program ℚ) (prices : List ℚ) (j : ℕ) : ℚ :=
  p.objective.coefficients.getD j 0 -
    ∑ k ∈ Finset.range p.constraints.length, prices.getD k 0 * p.uptake k j

/-- **A reduced cost that fits the prices**: zero for a basic variable, never a gain in the sense of the
program, and the margin of the variable, from which only reaching the upper bound takes away. -/
structure ReducedCost.Fits (entry : ReducedCost ℚ) (p : Program ℚ) (prices : List ℚ) (j : ℕ)
    (v : Variable ℚ) : Prop where
  basic : entry.basic = true → entry.cost = 0
  loses : p.objective.sense.sign * entry.cost ≤ 0
  le_margin : p.objective.sense.sign * entry.cost ≤ p.objective.sense.sign * p.margin prices j
  eq_margin : (∀ u ∈ v.upper, entry.value < u) → entry.cost = p.margin prices j
  atLower : entry.cost ≠ 0 → entry.value = v.lower

namespace Simplex

open StandardForm

namespace StandardForm

section Form

variable {f : StandardForm ℚ} {t : Tableau ℚ} {i j : ℕ} {r : StandardRow ℚ} {slot : Slot}

/-- The coefficient of a row in the column of a variable. -/
def coefficient (f : StandardForm ℚ) (i j : ℕ) : ℚ :=
  ((f.rows[i]?).map (·.coefficients.getD j 0)).getD 0

theorem coefficient_eq (hr : f.rows[i]? = some r) : f.coefficient i j = r.coefficients.getD j 0 := by
  rw [coefficient, hr]
  rfl

/-- No slot is in the column of a variable. -/
theorem part_single (hs : slot ∈ f.slots) (hj : j < f.variableCount) : slot.part (Pi.single j 1) = 0 := by
  have within := within_slot hs
  have low : f.variableCount ≤ f.artificialStart := variableCount_le
  have away : ∀ k, f.variableCount ≤ k → (Pi.single j 1 : ℕ → ℚ) k = 0 := fun k hk =>
    Pi.single_eq_of_ne (by omega) 1
  cases slot with
  | slack s => exact away s within.1
  | surplus s a =>
    obtain ⟨above, -, above', -⟩ := within
    rw [Slot.part, away s above, away a (low.trans above'), sub_zero]
  | artificial a => exact away a (low.trans within.1)

/-- **The objective line in the column of a variable**: the gain less what the column takes up of the
rows at their dual values. -/
theorem entry_goal_eq (proper : f.Proper) (equivalent : t.Equivalent f.tableau)
    (hj : j < f.variableCount) : t.goal.entry j =
      f.gains.getD j 0 - ∑ i ∈ Finset.range f.rows.length, f.coefficient i j * f.rowDual t i := by
  have misses : ∀ w : ℕ → ℚ, (∀ slot ∈ f.slots, slot.part w = 0) →
      weigh f.gains w = t.goal.excess w + ∑ i ∈ Finset.range f.rows.length,
        ((f.rows[i]?).map fun r => weigh r.coefficients w - r.rhs).getD 0 * f.rowDual t i := by
    intro w unused
    rw [← excess_goal, goal_excess_shifted proper equivalent]
    intro i r slot hr hs
    have mem := List.mem_of_getElem? hs
    rw [excess_equation proper (List.mem_of_getElem? hr) mem, unused slot mem, add_zero, hr]
    rfl
  -- one unit of the column, compared with none of it
  have one := misses (Pi.single j 1) fun slot hs => part_single hs hj
  have none := misses 0 fun slot _ => by cases slot <;> simp [Slot.part]
  have difference : ∑ i ∈ Finset.range f.rows.length, f.coefficient i j * f.rowDual t i =
      (∑ i ∈ Finset.range f.rows.length,
        ((f.rows[i]?).map fun r => weigh r.coefficients (Pi.single j 1) - r.rhs).getD 0 * f.rowDual t i) -
      ∑ i ∈ Finset.range f.rows.length,
        ((f.rows[i]?).map fun r => weigh r.coefficients 0 - r.rhs).getD 0 * f.rowDual t i := by
    rw [← Finset.sum_sub_distrib]
    refine Finset.sum_congr rfl fun i hi => ?_
    have hr := List.getElem?_eq_getElem (Finset.mem_range.mp hi)
    rw [coefficient_eq hr, hr]
    simp only [Option.map_some, Option.getD_some, weigh_single, weigh_zero]
    ring
  rw [weigh_single, Line.excess, Line.lhs_single] at one
  rw [weigh_zero, Line.excess, Line.lhs_zero] at none
  rw [difference]
  linarith

end Form

section Program

variable {p : Program ℚ} {t : Tableau ℚ} {i j k : ℕ} {c : Constraint ℚ} {v : Variable ℚ}

theorem coefficient_constraint (hc : p.constraints[k]? = some c) :
    (ofProgram p).coefficient k j = (rowOf p c).scale * c.coefficients.getD j 0 := by
  rw [coefficient_eq (row_constraint hc), ← weigh_single, rowOf, StandardRow.weigh_normalize, weigh_single]

theorem uptake_constraint (hc : p.constraints[k]? = some c) :
    p.uptake k j = c.relation.relaxationSign * c.coefficients.getD j 0 := by
  rw [Program.uptake, hc]
  rfl

theorem relaxationSign_mul_self (relation : Relation) :
    (relation.relaxationSign : ℚ) * relation.relaxationSign = 1 := by
  cases relation <;> norm_num [Relation.relaxationSign]

/-- The rows of the constraints take up of a variable what the constraints do, at the dual values of
either. -/
theorem sum_coefficient_constraints : ∑ k ∈ Finset.range p.constraints.length,
      (ofProgram p).coefficient k j * (ofProgram p).rowDual t k =
    p.objective.sense.sign * ∑ k ∈ Finset.range p.constraints.length,
      ((ofProgram p).duals p t).getD k 0 * p.uptake k j := by
  rw [Finset.mul_sum]
  apply Finset.sum_congr rfl
  intro k hk
  obtain ⟨c, hc⟩ : ∃ c, p.constraints[k]? = some c :=
    ⟨_, List.getElem?_eq_getElem (Finset.mem_range.mp hk)⟩
  rw [← mul_assoc, sign_mul_duals hc, coefficient_constraint hc, uptake_constraint hc]
  linear_combination (-(rowOf p c).scale * c.coefficients.getD j 0 * (ofProgram p).rowDual t k) *
    relaxationSign_mul_self c.relation

/-- What the upper bound of a variable is priced at. -/
def boundPrice (p : Program ℚ) (t : Tableau ℚ) (j : ℕ) : ℚ :=
  ∑ i ∈ Finset.Ico p.constraints.length (ofProgram p).rows.length,
    (ofProgram p).coefficient i j * (ofProgram p).rowDual t i

variable (h : p.WellFormed)
include h

/-- **The objective line in the column of a variable** is its margin less the price of its bound. -/
theorem entry_goal_margin (equivalent : t.Equivalent (ofProgram p).tableau) (hv : p.vars[j]? = some v) :
    t.goal.entry j =
      p.objective.sense.sign * p.margin ((ofProgram p).duals p t) j - boundPrice p t j := by
  have inside : j < (ofProgram p).variableCount := by
    rw [variableCount_ofProgram]
    exact (List.getElem?_eq_some_iff.mp hv).1
  have rows : p.constraints.length ≤ (ofProgram p).rows.length := by simp [ofProgram]
  have gains : (ofProgram p).gains.getD j 0 =
      p.objective.sense.sign * p.objective.coefficients.getD j 0 := by
    rw [← weigh_single, ← weigh_single]
    exact weigh_map _ _ _ (fun _ => rfl) _
  rw [entry_goal_eq (ofProgram_proper h) equivalent inside, ← Finset.sum_range_add_sum_Ico _ rows,
    sum_coefficient_constraints, gains, Program.margin, boundPrice]
  ring

/-- Of the rows after the constraints those of the upper bound of a variable have a coefficient there. -/
theorem coefficient_bound (hv : p.vars[j]? = some v) (low : p.constraints.length ≤ i)
    (high : i < (ofProgram p).rows.length) : (ofProgram p).coefficient i j = 0 ∨
      (ofProgram p).coefficient i j = 1 ∧ ∃ u, v.upper = some u ∧
        (ofProgram p).rows[i]? = some (boundRow p.vars.length j (u - v.lower)) := by
  have hr := List.getElem?_eq_getElem high
  obtain ⟨inside, -⟩ := List.getElem?_eq_some_iff.mp hv
  obtain ⟨c, hc, -⟩ | ⟨-, j', v', u, hv', hu, row⟩ := row_cases hr
  · rw [List.getElem?_eq_none low] at hc
    cases hc
  · rw [row] at hr
    rw [coefficient_eq hr, bound_row h hv' hu]
    by_cases own : j = j'
    · subst own
      obtain rfl := Option.some.inj (hv.symm.trans hv')
      exact Or.inr ⟨by simp [inside], u, hu, hr⟩
    · exact Or.inl (by simp [inside, own])

variable (ready : (ofProgram p).Ready t)
include ready

/-- **An upper bound never has a negative price.** -/
theorem boundPrice_nonneg (loses : ∀ j < (ofProgram p).artificialStart, t.goal.entry j ≤ 0)
    (hv : p.vars[j]? = some v) : 0 ≤ boundPrice p t j := by
  refine Finset.sum_nonneg fun i hi => ?_
  obtain ⟨low, high⟩ := Finset.mem_Ico.mp hi
  obtain zero | ⟨one, u, hu, hr⟩ := coefficient_bound h hv low high
  · rw [zero, zero_mul]
  · rw [bound_row h hv hu] at hr
    have nonneg := ready.rowDual_nonneg (ofProgram_proper h) loses hr nofun
    simpa [one, Relation.relaxationSign] using nonneg

/-- **An upper bound that is not reached has no price.** -/
theorem boundPrice_eq_zero (hv : p.vars[j]? = some v) (below : ∀ u ∈ v.upper, v.lower + t.vertex j < u) :
    boundPrice p t j = 0 := by
  refine Finset.sum_eq_zero fun i hi => ?_
  obtain ⟨low, high⟩ := Finset.mem_Ico.mp hi
  obtain zero | ⟨-, u, hu, hr⟩ := coefficient_bound h hv low high
  · rw [zero, zero_mul]
  · have free : (ofProgram p).rowDual t i = 0 := by
      by_contra priced
      have tight := ready.tight_of_rowDual_ne_zero (ofProgram_proper h) hr priced
      rw [bound_row h hv hu] at tight
      simp only [weigh_indicator (List.getElem?_eq_some_iff.mp hv).1] at tight
      linarith [below u hu]
    rw [free, mul_zero]

end Program

/-- The reduced cost of a variable is what its column gains; a basic one gains nothing. -/
theorem getElem?_reducedCosts {f : StandardForm ℚ} {p : Program ℚ} {t : Tableau ℚ} {n j : ℕ}
    (canonical : t.Canonical n) (hj : j < f.variableCount) :
    (f.reducedCosts p t)[j]? = some (p.objective.sense.sign * t.goal.entry j) := by
  rw [StandardForm.reducedCosts, List.getElem?_map, List.getElem?_zipIdx, getElem?_basicFlags hj,
    Option.map_some, Option.map_some, zero_add]
  by_cases basic : j ∈ t.basis
  · simp [basic, canonical.goal_of_mem basic]
  · simp [basic]

end StandardForm

/-- What the table says of one variable. -/
theorem getElem?_table_reducedCosts {r : Pricer ℚ} {p : Program ℚ} {s : Solution ℚ} {value : ℚ}
    (optimum : s.optimum? p.vars.length = some value) {j : ℕ} {v : Variable ℚ} {q : ℚ}
    (hv : p.vars[j]? = some v) (hq : s.values[j]? = some q) : (r.table p s).reducedCosts[j]? =
      some ⟨v.name, q, s.reducedCosts.getD j 0, s.basic.getD j false⟩ := by
  have pair : (p.vars.zip s.values)[j]? = some (v, q) := List.getElem?_zip_eq_some.mpr ⟨hv, hq⟩
  rw [Pricer.table, optimum]
  simp only [Pricer.reducedCosts, List.getElem?_map, List.getElem?_zipIdx, pair, Option.map_some,
    zero_add]

/-- **The reduced costs fit the dual values**, for every valid program with an optimum, when the
tolerances are zero and no quantity is taken for dust: for each variable the table has an entry with
its quantity, its reduced cost and its flag, which says whether some row of the last tableau is solved
for it, and that entry fits the dual values. -/
theorem reducedCosts_fit (s : SolverSettings ℚ) (p : Program ℚ) (valid : p.flaw? = none)
    (sharp : s.pivotTolerance = 0) (binding : s.bindingTolerance = 0) (r : Pricer ℚ)
    (optimal : (solve s p).status = .optimal)
    (dustless : ∀ run ∈ finalRun? s p, (ofProgram p).Dustless run.tableau) :
    ∃ run, finalRun? s p = some run ∧
      ∀ (j : ℕ) (v : Variable ℚ), p.vars[j]? = some v → ∃ entry : ReducedCost ℚ,
        (r.table p (solve s p)).reducedCosts[j]? = some entry ∧ entry.name = v.name ∧
        (solve s p).values[j]? = some entry.value ∧ (solve s p).reducedCosts[j]? = some entry.cost ∧
        (solve s p).basic[j]? = some entry.basic ∧ (entry.basic = true ↔ j ∈ run.tableau.basis) ∧
        entry.Fits p (solve s p).duals j v := by
  have h := p.flaw?_eq_none_iff.mp valid
  obtain ⟨run, hrun, read⟩ := exists_readOff h sharp binding optimal dustless
  have ready := read.ready
  have canonical := ready.sound.canonical
  refine ⟨run, hrun, fun j v hv => ?_⟩
  have inside : j < (ofProgram p).variableCount := by
    rw [variableCount_ofProgram]
    exact (List.getElem?_eq_some_iff.mp hv).1
  have value : (solve s p).values[j]? = some (v.lower + run.tableau.vertex j) := by
    rw [read.values, getElem?_corner, lower_ofProgram, hv]
    rfl
  have cost := read.reducedCosts ▸ getElem?_reducedCosts canonical inside
  have flag := read.basic ▸ getElem?_basicFlags (t := run.tableau) inside
  have gain := read.loses j (inside.trans_le variableCount_le)
  have margin := entry_goal_margin h ready.sound.equivalent hv
  have priced := boundPrice_nonneg h ready read.loses hv
  have unit := sign_mul_sign p.objective.sense
  have restored : p.objective.sense.sign * (p.objective.sense.sign * run.tableau.goal.entry j) =
      run.tableau.goal.entry j := by linear_combination run.tableau.goal.entry j * unit
  refine ⟨⟨v.name, _, _, _⟩, ?_, rfl, value, cost, flag, decide_eq_true_iff, ?_⟩
  · rw [getElem?_table_reducedCosts read.optimum? hv value, List.getD_eq_getElem?_getD, cost,
      List.getD_eq_getElem?_getD, flag]
    rfl
  rw [read.duals]
  refine ⟨fun basic => ?_, ?_, ?_, fun below => ?_, fun costs => ?_⟩
  · rw [canonical.goal_of_mem (of_decide_eq_true basic), mul_zero]
  · rw [restored]
    exact gain
  · rw [restored, margin]
    exact sub_le_self _ priced
  · rw [margin, boundPrice_eq_zero h ready hv below]
    linear_combination p.margin ((ofProgram p).duals p run.tableau) j * unit
  · have free : j ∉ run.tableau.basis := fun basic =>
      costs (by rw [canonical.goal_of_mem basic, mul_zero])
    change v.lower + run.tableau.vertex j = v.lower
    rw [Tableau.vertex_of_not_mem free, add_zero]

/-- Three quantities that share four hours: the first is cut off at its upper bound, so its margin is above
its reduced cost, and the third costs more than it is worth and stays at its lower bound. -/
def shared : Program ℚ where
  vars := [⟨"x", 0, some 1⟩, ⟨"y", 0, none⟩, ⟨"z", 1, none⟩]
  objective := ⟨.minimize, [-3, -1, 1]⟩
  constraints := [⟨"hours", [1, 1, 1], .atMost, 4⟩, ⟨"order", [0, 2, 1], .atLeast, 2⟩]

theorem reducedCosts_fit_shared :
    (shared.flaw? = none ∧ (solve ⟨100, 0, 0⟩ shared).status = .optimal ∧
      (∀ run ∈ finalRun? ⟨100, 0, 0⟩ shared, (ofProgram shared).Dustless run.tableau) ∧
      shared.vars[0]? = some ⟨"x", 0, some 1⟩) ∧
    ∃ run, finalRun? ⟨100, 0, 0⟩ shared = some run ∧ ∃ entry : ReducedCost ℚ,
      (Pricer.table ⟨0, .dual, ⟨100, 0, 0⟩⟩ shared (solve ⟨100, 0, 0⟩ shared)).reducedCosts[0]? =
        some entry ∧ entry.name = "x" ∧
      (solve ⟨100, 0, 0⟩ shared).values[0]? = some entry.value ∧
      (solve ⟨100, 0, 0⟩ shared).reducedCosts[0]? = some entry.cost ∧
      (solve ⟨100, 0, 0⟩ shared).basic[0]? = some entry.basic ∧
      (entry.basic = true ↔ 0 ∈ run.tableau.basis) ∧
      entry.Fits shared (solve ⟨100, 0, 0⟩ shared).duals 0 ⟨"x", 0, some 1⟩ := by
  have valid : shared.flaw? = none := by decide +kernel
  have optimal : (solve ⟨100, 0, 0⟩ shared).status = .optimal := by decide +kernel
  have dustless : ∀ run ∈ finalRun? ⟨100, 0, 0⟩ shared,
      (ofProgram shared).Dustless run.tableau := by decide +kernel
  obtain ⟨run, hrun, each⟩ := reducedCosts_fit ⟨100, 0, 0⟩ shared valid rfl rfl ⟨0, .dual, ⟨100, 0, 0⟩⟩
    optimal dustless
  exact ⟨⟨valid, optimal, dustless, rfl⟩, run, hrun, each 0 ⟨"x", 0, some 1⟩ rfl⟩

end Simplex

end Allotment
