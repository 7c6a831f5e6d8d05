import Allotment.Proofs.Status
import Allotment.Pricing

/-!
# What the prices of a table are worth

Without tolerances the prices that are read off the last tableau are a system of prices for the whole
program and not only near the optimum: whatever limits are moved and by how much, no point within the
bounds gains more over the optimum than the moves cost at these prices. Inequalities have prices of
one sign, and a constraint with a price has no slack, so the table drops no price of a constraint
that is not binding.
-/

namespace Allotment.Simplex
set_option autoImplicit false

open StandardForm

namespace StandardForm

/-- No quantity of the point is small enough to be taken for dust. -/
def Dustless (f : StandardForm ℚ) (t : Tableau ℚ) : Prop :=
  ∀ r ∈ t.rows, r.basic < f.variableCount → snap r.rhs = r.rhs

instance (f : StandardForm ℚ) (t : Tableau ℚ) : Decidable (f.Dustless t) :=
  inferInstanceAs (Decidable (∀ r ∈ t.rows, r.basic < f.variableCount → snap r.rhs = r.rhs))

theorem snap_vertex_of_dustless {f : StandardForm ℚ} {t : Tableau ℚ} {n : ℕ} (h : t.Canonical n)
    (dustless : f.Dustless t) {j : ℕ} (hj : j < f.variableCount) : snap (t.vertex j) = t.vertex j := by
  by_cases basic : j ∈ t.basis
  · obtain ⟨r, hr, rfl⟩ := Tableau.mem_basis.mp basic
    rw [h.vertex_basic hr, dustless r hr hj]
  · rw [Tableau.vertex_of_not_mem basic, snap_zero]

theorem point_of_dustless {f : StandardForm ℚ} {t : Tableau ℚ} {n : ℕ} (h : t.Canonical n)
    (dustless : f.Dustless t) : f.point t = f.corner t.vertex := by
  rw [point_eq h]
  exact corner_congr fun j hj => snap_vertex_of_dustless h dustless hj

section Duals

variable {p : Program ℚ} {t : Tableau ℚ} {k : ℕ} {c : Constraint ℚ}

theorem sign_mul_sign (sense : Sense) : (sense.sign : ℚ) * sense.sign = 1 := by
  cases sense <;> norm_num [Sense.sign]

theorem length_duals : ((ofProgram p).duals p t).length = p.constraints.length := by
  have rows : p.constraints.length ≤ (ofProgram p).rows.length := by simp [ofProgram]
  rw [duals, List.length_zipWith, List.length_zip, length_slots, min_self]
  exact min_eq_left rows

/-- **The dual value of a constraint is that of its row**, up to the signs of the sense, of the row
and of the relation. -/
theorem getElem?_duals (hc : p.constraints[k]? = some c) : ((ofProgram p).duals p t)[k]? =
    some (p.objective.sense.sign * ((rowOf p c).scale * (ofProgram p).rowDual t k) *
      c.relation.relaxationSign) := by
  have hr := row_constraint hc
  obtain ⟨slot, hs⟩ := exists_slot (List.getElem?_eq_some_iff.mp hr).1
  have hz : ((ofProgram p).rows.zip (ofProgram p).slots)[k]? = some (rowOf p c, slot) :=
    List.getElem?_zip_eq_some.mpr ⟨hr, hs⟩
  rw [duals, List.getElem?_zipWith, hc, hz, rowDual, unitColumn_eq hs]
  simp only [StandardRow.scale]
  split <;> simp

theorem sign_mul_duals (hc : p.constraints[k]? = some c) :
    p.objective.sense.sign * ((ofProgram p).duals p t).getD k 0 =
      (rowOf p c).scale * c.relation.relaxationSign * (ofProgram p).rowDual t k := by
  rw [List.getD_eq_getElem?_getD, getElem?_duals hc, Option.getD_some]
  linear_combination ((rowOf p c).scale * (ofProgram p).rowDual t k * c.relation.relaxationSign) *
    sign_mul_sign p.objective.sense

/-- The moves of the limits that relaxing each constraint by an amount makes. -/
def relaxing (p : Program ℚ) (d : ℕ → ℚ) (k : ℕ) : ℚ :=
  ((p.constraints[k]?).map fun c => c.relation.relaxationSign * d k).getD 0

theorem relaxing_constraint {d : ℕ → ℚ} (hc : p.constraints[k]? = some c) :
    relaxing p d k = c.relation.relaxationSign * d k := by
  rw [relaxing, hc]
  rfl

/-- **Moves of the limits are priced alike** by the rows and by the dual values of the constraints. -/
theorem sum_carried (d : ℕ → ℚ) :
    ∑ i ∈ Finset.range (ofProgram p).rows.length,
        carried p (relaxing p d) i * (ofProgram p).rowDual t i =
      ∑ k ∈ Finset.range p.constraints.length,
        p.objective.sense.sign * ((ofProgram p).duals p t).getD k 0 * d k := by
  have rows : p.constraints.length ≤ (ofProgram p).rows.length := by simp [ofProgram]
  rw [← Finset.sum_subset (Finset.range_subset_range.mpr rows)]
  · apply Finset.sum_congr rfl
    intro k hk
    obtain ⟨c, hc⟩ : ∃ c, p.constraints[k]? = some c :=
      ⟨_, List.getElem?_eq_getElem (Finset.mem_range.mp hk)⟩
    rw [carried_constraint hc, relaxing_constraint hc, sign_mul_duals hc]
    ring
  · intro i _ outside
    have none : p.constraints[i]? = none := by simpa using outside
    rw [carried_none none, zero_mul]

end Duals

end StandardForm

end Allotment.Simplex

namespace Allotment

/-- The prices of a table, in the order of the constraints. -/
def PriceTable.prices (t : PriceTable ℚ) : List ℚ := t.constraints.map (·.price)

/-- **A system of prices for a program whose optimum has a value**: one price per constraint, of the
sign that relaxing an inequality asks for, such that no relaxation gains more than it costs. -/
structure Program.PricedBy (p : Program ℚ) (value : ℚ) (prices : List ℚ) : Prop where
  length : prices.length = p.constraints.length
  bounds : ∀ (d : ℕ → ℚ) (x : List ℚ), p.Within x →
    (∀ (k : ℕ) (c : Constraint ℚ), p.constraints[k]? = some c → (c.relaxed (d k)).Holds x) →
    p.objective.sense.sign * (p.valueAt x - value) ≤
      ∑ k ∈ Finset.range p.constraints.length, p.objective.sense.sign * prices.getD k 0 * d k
  sign : ∀ (k : ℕ) (c : Constraint ℚ), p.constraints[k]? = some c → c.relation ≠ .equal →
    0 ≤ p.objective.sense.sign * prices.getD k 0

namespace Simplex

open StandardForm

section

variable {p : Program ℚ} {t : Tableau ℚ} (h : p.WellFormed) (ready : (ofProgram p).Ready t)
include h ready

/-- **The dual values of an optimal tableau price the program.** -/
theorem pricedBy_duals (loses : ∀ j < (ofProgram p).artificialStart, t.goal.entry j ≤ 0) :
    p.PricedBy (p.valueAt ((ofProgram p).corner t.vertex)) ((ofProgram p).duals p t) where
  length := length_duals
  bounds d x within holds := by
    have restored := corner_shifted_of_within within
    rw [← restored] at within holds ⊢
    have bounds := within_corner_iff.mp within
    have meets : (ofProgram p).Meets (carried p (relaxing p d)) ((ofProgram p).shifted x) := by
      refine (meets_carried_iff h _).mpr ⟨fun k c hc => ?_, fun j v hv => (bounds j v hv).2⟩
      rw [relaxing_constraint hc]
      exact holds k c hc
    have nonneg : ∀ j < (ofProgram p).variableCount, 0 ≤ (ofProgram p).shifted x j := by
      intro j hj
      rw [variableCount_ofProgram] at hj
      exact (bounds j _ (List.getElem?_eq_getElem hj)).1
    have gain := ready.weigh_gains_shifted_le (ofProgram_proper h) loses nonneg meets
    have better := improvement_corner h (z := (ofProgram p).shifted x) (w := t.vertex)
    unfold Sense.improvement at better
    rw [better, ← sum_carried d]
    linarith
  sign k c hc inequality := by
    have row : (rowOf p c).relation ≠ .equal := fun equal =>
      inequality ((StandardRow.relation_normalize_eq_equal _ _ _).mp equal)
    have nonneg := ready.rowDual_nonneg (ofProgram_proper h) loses (row_constraint hc) row
    rw [rowOf, StandardRow.relaxationSign_normalize _ _ _ inequality] at nonneg
    rw [sign_mul_duals hc]
    exact nonneg

/-- **A constraint with a dual value has no slack** at the vertex. -/
theorem slack_of_dual_ne_zero {k : ℕ} {c : Constraint ℚ} (hc : p.constraints[k]? = some c)
    (priced : ((ofProgram p).duals p t).getD k 0 ≠ 0) :
    c.slack (c.consumed ((ofProgram p).corner t.vertex)) = 0 := by
  have mem := List.mem_of_getElem? hc
  have rowPriced : (ofProgram p).rowDual t k ≠ 0 := by
    intro zero
    rw [List.getD_eq_getElem?_getD, getElem?_duals hc, zero, mul_zero, mul_zero, zero_mul] at priced
    exact priced rfl
  have tight := ready.tight_of_rowDual_ne_zero (ofProgram_proper h) (row_constraint hc) rowPriced
  rw [rowOf, StandardRow.weigh_normalize, StandardRow.rhs_normalize] at tight
  have used : c.consumed ((ofProgram p).corner t.vertex) = c.limit := by
    have weighs := mul_left_cancel₀ (StandardRow.scale_ne_zero _) tight
    rw [consumed_corner h mem, weighs]
    ring
  rw [used, Constraint.slack]
  cases c.relation <;> exact sub_self _

end

theorem optimum?_eq {s : Solution ℚ} {count : ℕ} (optimal : s.status = .optimal)
    (length : s.values.length = count) : s.optimum? count = s.objective := by
  rw [Solution.optimum?, Solution.isOptimal, optimal, length]
  simp

/-- **An optimum that is read off a tableau**: the point is its vertex, no column that may enter gains, and
the dual values, the reduced costs and the flags are those of the tableau. -/
structure ReadOff (s : SolverSettings ℚ) (p : Program ℚ) (t : Tableau ℚ) : Prop where
  status : (solve s p).status = .optimal
  ready : (ofProgram p).Ready t
  loses : ∀ j < (ofProgram p).artificialStart, t.goal.entry j ≤ 0
  values : (solve s p).values = (ofProgram p).corner t.vertex
  objective : (solve s p).objective = some (p.valueAt ((ofProgram p).corner t.vertex))
  duals : (solve s p).duals = (ofProgram p).duals p t
  reducedCosts : (solve s p).reducedCosts = (ofProgram p).reducedCosts p t
  basic : (solve s p).basic = (ofProgram p).basicFlags t

/-- **Without tolerances and dust an optimum is read off the last tableau.** -/
theorem exists_readOff {s : SolverSettings ℚ} {p : Program ℚ} (h : p.WellFormed)
    (sharp : s.pivotTolerance = 0) (binding : s.bindingTolerance = 0)
    (optimal : (solve s p).status = .optimal)
    (dustless : ∀ run ∈ finalRun? s p, (ofProgram p).Dustless run.tableau) :
    ∃ run, finalRun? s p = some run ∧ ReadOff s p run.tableau := by
  obtain ⟨run, hrun, stop, solution⟩ := exists_run_of_optimal optimal
  have ready := ready_finalRun? h sharp binding hrun
  have point := point_of_dustless ready.sound.canonical (dustless run hrun)
  exact ⟨run, hrun, {
    status := optimal
    ready
    loses := fun j hj => loses_of_optimal sharp hrun stop hj
    values := by rw [solution, ← point]; rfl
    objective := by rw [solution, ← point]; rfl
    duals := by rw [solution]; rfl
    reducedCosts := by rw [solution]; rfl
    basic := by rw [solution]; rfl }⟩

theorem ReadOff.optimum? {s : SolverSettings ℚ} {p : Program ℚ} {t : Tableau ℚ} (read : ReadOff s p t) :
    (solve s p).optimum? p.vars.length = some (p.valueAt ((ofProgram p).corner t.vertex)) := by
  refine (optimum?_eq read.status ?_).trans read.objective
  rw [read.values, length_corner, variableCount_ofProgram]

/-- What the table says of one constraint, priced by dual values. -/
theorem getElem?_table {r : Pricer ℚ} {p : Program ℚ} {s : Solution ℚ} {value : ℚ}
    (optimum : s.optimum? p.vars.length = some value) (k : ℕ) : (r.table p s).constraints[k]? =
      (p.constraints[k]?).map fun c => r.constraintPrice p s value c k := by
  rw [Pricer.table, optimum]
  simp [List.getElem?_zipIdx, Function.comp_def]

/-- The price in a table without a tolerance, where a constraint with a dual value has no slack. -/
theorem price_eq_dual {r : Pricer ℚ} (method : r.method = .dual) (tolerance : r.bindingTolerance = 0)
    {p : Program ℚ} {s : Solution ℚ} {value : ℚ} {c : Constraint ℚ} {k : ℕ}
    (slack : s.duals.getD k 0 ≠ 0 → c.slack (c.consumed s.values) = 0) :
    (r.constraintPrice p s value c k).price = s.duals.getD k 0 := by
  simp only [Pricer.constraintPrice, Pricer.bindingPrice, method, tolerance]
  split
  · rfl
  · next free =>
    by_contra differs
    apply free
    rw [slack (Ne.symm differs)]
    decide

section Table

variable {r : Pricer ℚ} {p : Program ℚ} {s : Solution ℚ} {value : ℚ} (method : r.method = .dual)
  (tolerance : r.bindingTolerance = 0) (optimum : s.optimum? p.vars.length = some value)
  (length : s.duals.length = p.constraints.length)
  (slack : ∀ k c, p.constraints[k]? = some c → s.duals.getD k 0 ≠ 0 → c.slack (c.consumed s.values) = 0)
include method tolerance optimum slack

theorem slack_of_price_ne_zero {entry : ConstraintPrice ℚ} (mem : entry ∈ (r.table p s).constraints)
    (priced : entry.price ≠ 0) : entry.slack = 0 := by
  obtain ⟨k, hk⟩ := List.getElem?_of_mem mem
  rw [getElem?_table optimum, Option.map_eq_some_iff] at hk
  obtain ⟨c, hc, rfl⟩ := hk
  rw [price_eq_dual method tolerance (slack k c hc)] at priced
  exact slack k c hc priced

include length

/-- **The table drops no price.** -/
theorem prices_eq_duals : (r.table p s).prices = s.duals := by
  apply List.ext_getElem?
  intro k
  rw [PriceTable.prices, List.getElem?_map, getElem?_table optimum, Option.map_map]
  cases hc : p.constraints[k]? with
  | none =>
    have outside : s.duals.length ≤ k := length ▸ List.getElem?_eq_none_iff.mp hc
    rw [Option.map_none, List.getElem?_eq_none outside]
  | some c =>
    have inside : k < s.duals.length := length ▸ (List.getElem?_eq_some_iff.mp hc).1
    rw [Option.map_some, Function.comp_apply, price_eq_dual method tolerance (slack k c hc),
      List.getElem?_eq_getElem inside, List.getD_eq_getElem _ _ inside]

end Table

/-- **The prices of the table are a system of prices for the whole program**, for every valid program
with an optimum, when the tolerances are zero, prices are dual values and no quantity is taken for
dust. They are the dual values of the last tableau, and a constraint with a price has no slack. -/
theorem table_prices_program (s : SolverSettings ℚ) (p : Program ℚ) (valid : p.flaw? = none)
    (sharp : s.pivotTolerance = 0) (binding : s.bindingTolerance = 0) (r : Pricer ℚ)
    (method : r.method = .dual) (tolerance : r.bindingTolerance = 0)
    (optimal : (solve s p).status = .optimal)
    (dustless : ∀ run ∈ finalRun? s p, (ofProgram p).Dustless run.tableau) :
    (∃ value, (solve s p).objective = some value ∧ p.PricedBy value (r.table p (solve s p)).prices) ∧
      (r.table p (solve s p)).prices = (solve s p).duals ∧
      ∀ entry ∈ (r.table p (solve s p)).constraints, entry.price ≠ 0 → entry.slack = 0 := by
  have h := p.flaw?_eq_none_iff.mp valid
  obtain ⟨run, -, read⟩ := exists_readOff h sharp binding optimal dustless
  have slack : ∀ k c, p.constraints[k]? = some c → (solve s p).duals.getD k 0 ≠ 0 →
      c.slack (c.consumed (solve s p).values) = 0 := by
    rw [read.duals, read.values]
    exact fun k c hc => slack_of_dual_ne_zero h read.ready hc
  have prices : (r.table p (solve s p)).prices = (solve s p).duals :=
    prices_eq_duals method tolerance read.optimum? (read.duals ▸ length_duals) slack
  refine ⟨⟨_, read.objective, ?_⟩, prices,
    fun entry => slack_of_price_ne_zero method tolerance read.optimum? slack⟩
  rw [prices, read.duals]
  exact pricedBy_duals h read.ready read.loses

theorem table_prices_sample :
    ((solve ⟨100, 0, 0⟩ Program.sample).status = .optimal ∧
      ∀ run ∈ finalRun? ⟨100, 0, 0⟩ Program.sample, (ofProgram Program.sample).Dustless run.tableau) ∧
    ((∃ value, (solve ⟨100, 0, 0⟩ Program.sample).objective = some value ∧ Program.sample.PricedBy value
        (Pricer.table ⟨0, .dual, ⟨100, 0, 0⟩⟩ Program.sample (solve ⟨100, 0, 0⟩ Program.sample)).prices) ∧
      (Pricer.table ⟨0, .dual, ⟨100, 0, 0⟩⟩ Program.sample (solve ⟨100, 0, 0⟩ Program.sample)).prices =
        (solve ⟨100, 0, 0⟩ Program.sample).duals ∧
      ∀ entry ∈ (Pricer.table ⟨0, .dual, ⟨100, 0, 0⟩⟩ Program.sample
        (solve ⟨100, 0, 0⟩ Program.sample)).constraints, entry.price ≠ 0 → entry.slack = 0) := by
  have optimal : (solve ⟨100, 0, 0⟩ Program.sample).status = .optimal := by decide +kernel
  have dustless : ∀ run ∈ finalRun? ⟨100, 0, 0⟩ Program.sample,
      (ofProgram Program.sample).Dustless run.tableau := by decide +kernel
  exact ⟨⟨optimal, dustless⟩, table_prices_program ⟨100, 0, 0⟩ Program.sample Program.flaw?_sample rfl rfl
    ⟨0, .dual, ⟨100, 0, 0⟩⟩ rfl rfl optimal dustless⟩

end Simplex

end Allotment
