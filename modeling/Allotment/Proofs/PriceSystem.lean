import Allotment.Proofs.Prices

/-!
# Systems of prices

Without tolerances and without dust a solution is a feasible point together with a system of prices
for its value (`exists_priced_optimum`), and everything here follows from the inequality that such a
system gives. A point that misses every constraint by no more than a tolerance gains at most the
tolerance times what the prices add up to.
-/

namespace Allotment
set_option autoImplicit false

namespace Program

variable {p : Program ℚ}

/-- The amount that every constraint has to be relaxed by for a point that misses none by more than a
tolerance. -/
def missed (p : Program ℚ) (x : List ℚ) (tolerance : ℚ) (k : ℕ) : ℚ :=
  ((p.constraints[k]?).map fun c =>
    if c.relation = .equal then c.consumed x - c.limit else tolerance).getD 0

theorem abs_missed_le {x : List ℚ} {tolerance : ℚ} (nonneg : 0 ≤ tolerance)
    (allows : ∀ c ∈ p.constraints, c.relation.Allows tolerance (c.limit - c.consumed x)) (k : ℕ) :
    |p.missed x tolerance k| ≤ tolerance := by
  unfold missed
  cases hc : p.constraints[k]? with
  | none => simpa using nonneg
  | some c =>
    have allowed := allows c (List.mem_of_getElem? hc)
    rw [Option.map_some, Option.getD_some]
    split
    · next equal =>
      rw [equal, Relation.Allows] at allowed
      rwa [abs_sub_comm]
    · exact (abs_of_nonneg nonneg).le

theorem holds_relaxed_missed {x : List ℚ} {tolerance : ℚ} {k : ℕ} {c : Constraint ℚ}
    (hc : p.constraints[k]? = some c)
    (allowed : c.relation.Allows tolerance (c.limit - c.consumed x)) :
    (c.relaxed (p.missed x tolerance k)).Holds x := by
  rw [missed, hc, Option.map_some, Option.getD_some]
  unfold Constraint.Holds Constraint.relaxed Constraint.consumed Relation.Holds Relation.relaxationSign
  unfold Relation.Allows Constraint.consumed at allowed
  cases relation : c.relation <;> simp only [relation, reduceCtorEq, if_false, if_true] at allowed ⊢ <;>
    linarith

/-- **Missing the constraints by a tolerance gains at most the tolerance times all prices.** -/
theorem PricedBy.improvement_le_of_allows {value : ℚ} {prices : List ℚ} (priced : p.PricedBy value prices)
    {x : List ℚ} (within : p.Within x) {tolerance : ℚ} (nonneg : 0 ≤ tolerance)
    (allows : ∀ c ∈ p.constraints, c.relation.Allows tolerance (c.limit - c.consumed x)) :
    p.objective.sense.improvement (p.valueAt x) value ≤ tolerance * (prices.map fun a => |a|).sum := by
  have bound := priced.bounds (p.missed x tolerance) x within fun k c hc =>
    holds_relaxed_missed hc (allows c (List.mem_of_getElem? hc))
  have entry : ∀ k, (prices.map (p.objective.sense.sign * ·)).getD k 0 =
      p.objective.sense.sign * prices.getD k 0 := by
    intro k
    rw [← mul_zero p.objective.sense.sign, List.getD_map, mul_zero]
  have cost : ∑ k ∈ Finset.range p.constraints.length,
        p.objective.sense.sign * prices.getD k 0 * p.missed x tolerance k =
      weigh (prices.map (p.objective.sense.sign * ·)) (p.missed x tolerance) := by
    rw [weigh, List.length_map, priced.length]
    exact Finset.sum_congr rfl fun k _ => by rw [entry]
  have magnitudes : (prices.map (p.objective.sense.sign * ·)).map (fun a => |a|) =
      prices.map fun a => |a| := by
    rw [List.map_map]
    exact List.map_congr_left fun a _ => Sense.abs_sign_mul _ a
  rw [cost] at bound
  rw [← magnitudes]
  exact bound.trans (weigh_le_of_abs_le fun k _ => abs_missed_le nonneg allows k)

end Program

namespace Simplex

open StandardForm

/-- **An optimum without tolerances and dust** is a feasible point with a system of prices for its
value: the dual values, which only constraints without slack have. -/
theorem exists_priced_optimum {s : SolverSettings ℚ} {p : Program ℚ} (h : p.WellFormed)
    (sharp : s.pivotTolerance = 0) (binding : s.bindingTolerance = 0)
    (optimal : (solve s p).status = .optimal)
    (dustless : ∀ run ∈ finalRun? s p, (ofProgram p).Dustless run.tableau) :
    p.Feasible (solve s p).values ∧
      (solve s p).objective = some (p.valueAt (solve s p).values) ∧
      p.PricedBy (p.valueAt (solve s p).values) (solve s p).duals ∧
      ∀ k c, p.constraints[k]? = some c → (solve s p).duals.getD k 0 ≠ 0 →
        c.slack (c.consumed (solve s p).values) = 0 := by
  obtain ⟨run, -, read⟩ := exists_readOff h sharp binding optimal dustless
  rw [read.objective, read.values, read.duals]
  exact ⟨feasible_vertex h read.ready, rfl, pricedBy_duals h read.ready read.loses,
    fun k c hc => slack_of_dual_ne_zero h read.ready hc⟩

end Simplex

end Allotment
