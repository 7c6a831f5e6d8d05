import Allotment.Comparison
import Allotment.Proofs.FiniteDifference
import Allotment.Proofs.Limit

/-!
# Sweeps of a limit

A sweep solves a program once for each of several limits of one constraint. The solves have nothing in
common but the program (`sweep_eq`), and still their verdicts and optima fit together, because each of
them is exact: a looser limit is never worse, no limit is unbounded beside one with an optimum, and over the
limits the optimum is concave in the sense of the program (`sweep_regular`).
-/

namespace Allotment
set_option autoImplicit false

open Simplex Simplex.StandardForm Program

/-- **A solve that comes to a verdict**, and takes no quantity for dust. -/
structure Simplex.Conclusive (s : SolverSettings ℚ) (p : Program ℚ) : Prop where
  ended : (solve s p).status ≠ .pivotLimit
  dustless : ∀ run ∈ finalRun? s p, (ofProgram p).Dustless run.tableau

instance (s : SolverSettings ℚ) (p : Program ℚ) : Decidable (Conclusive s p) :=
  decidable_of_iff ((solve s p).status ≠ .pivotLimit ∧
      ∀ run ∈ finalRun? s p, (ofProgram p).Dustless run.tableau)
    ⟨fun h => ⟨h.1, h.2⟩, fun h => ⟨h.ended, h.dustless⟩⟩

/-- The point of a sweep at one limit. -/
def Program.pointAt (p : Program ℚ) (s : SolverSettings ℚ) (k : ℕ) (limit : ℚ) : SweepPoint ℚ where
  limit
  status := (solve s (p.withLimit k limit)).status
  objective := (solve s (p.withLimit k limit)).objective
  values := (solve s (p.withLimit k limit)).values

/-- **What the points of a sweep have to do with each other**, for a constraint of some relation. Of two
limits the first one is the tighter one if that relation holds between them. -/
structure Regular (sense : Sense) (relation : Relation) (points : List (SweepPoint ℚ)) : Prop where
  /-- Whatever a tighter limit allows, a looser one allows too. -/
  reached : ∀ P ∈ points, ∀ Q ∈ points, relation.Holds P.limit Q.limit →
    P.status = .optimal ∨ P.status = .unbounded → Q.status ≠ .infeasible
  /-- A looser limit has no worse optimum. -/
  monotone : ∀ P ∈ points, ∀ Q ∈ points, relation.Holds P.limit Q.limit →
    P.status = .optimal → Q.status = .optimal →
    ∃ a b, P.objective = some a ∧ Q.objective = some b ∧ 0 ≤ sense.improvement b a
  /-- Beside an unbounded limit there are unbounded and infeasible ones only. -/
  unbounded : ∀ P ∈ points, ∀ Q ∈ points, P.status = .unbounded →
    Q.status = .unbounded ∨ Q.status = .infeasible
  /-- Between two optima there is an optimum that is no worse than what lies between them. -/
  concave : ∀ P ∈ points, ∀ Q ∈ points, ∀ R ∈ points, P.limit < Q.limit → Q.limit < R.limit →
    P.status = .optimal → R.status = .optimal → Q.status = .optimal ∧
      ∃ a b c, P.objective = some a ∧ Q.objective = some b ∧ R.objective = some c ∧
        0 ≤ sense.improvement b (interpolate ((Q.limit - P.limit) / (R.limit - P.limit)) a c)

section Solves

variable {s : SolverSettings ℚ} {p : Program ℚ}

theorem Program.PricedBy.improvement_nonpos {value : ℚ} {prices x : List ℚ}
    (priced : p.PricedBy value prices) (feasible : p.Feasible x) :
    p.objective.sense.improvement (p.valueAt x) value ≤ 0 := by
  have bound := priced.bounds 0 x feasible.within fun k c hc => by
    rw [Pi.zero_apply, Constraint.relaxed_zero]
    exact feasible.holds c (List.mem_of_getElem? hc)
  simp only [Pi.zero_apply, mul_zero, Finset.sum_const_zero] at bound
  exact bound

variable (h : p.WellFormed) (sharp : s.pivotTolerance = 0) (binding : s.bindingTolerance = 0)
include h sharp binding

/-- **An optimum is a feasible point that no other gains over.** -/
theorem exists_best (conclusive : Conclusive s p) (optimal : (solve s p).status = .optimal) :
    ∃ x, p.Feasible x ∧ (solve s p).objective = some (p.valueAt x) ∧
      ∀ y, p.Feasible y → p.objective.sense.improvement (p.valueAt y) (p.valueAt x) ≤ 0 := by
  obtain ⟨feasible, objective, priced, -⟩ :=
    exists_priced_optimum h sharp binding optimal conclusive.dustless
  exact ⟨_, feasible, objective, fun y => priced.improvement_nonpos⟩

theorem exists_feasible (reached : (solve s p).status = .optimal ∨ (solve s p).status = .unbounded) :
    ∃ x, p.Feasible x := by
  obtain optimal | unbounded := reached
  · obtain ⟨x, feasible, -⟩ := exists_optimum h sharp binding optimal
    exact ⟨x, feasible⟩
  · obtain ⟨x, feasible, -⟩ := exists_better_of_unbounded h sharp binding unbounded 0
    exact ⟨x, feasible⟩

end Solves

/-! ## Two limits and three -/

section Limits

variable {s : SolverSettings ℚ} {p : Program ℚ} {k : ℕ} {c : Constraint ℚ} {l m : ℚ} (h : p.WellFormed)
  (sharp : s.pivotTolerance = 0) (binding : s.bindingTolerance = 0) (hc : p.constraints[k]? = some c)
include h sharp binding hc

theorem not_infeasible_of_looser (looser : c.relation.Holds l m)
    (reached : (solve s (p.withLimit k l)).status = .optimal ∨
      (solve s (p.withLimit k l)).status = .unbounded) :
    (solve s (p.withLimit k m)).status ≠ .infeasible := by
  intro infeasible
  obtain ⟨x, feasible⟩ := exists_feasible (h.withLimit hc l) sharp binding reached
  exact not_feasible_of_infeasible (h.withLimit hc m) sharp binding infeasible x (feasible.looser hc looser)

/-- The prices of an optimum bound what any other limit can reach. -/
theorem not_unbounded_of_optimal (conclusive : Conclusive s (p.withLimit k l))
    (optimal : (solve s (p.withLimit k l)).status = .optimal) (m : ℚ) :
    (solve s (p.withLimit k m)).status ≠ .unbounded := by
  have wellFormed := h.withLimit hc l
  obtain ⟨-, -, priced, -⟩ :=
    exists_priced_optimum wellFormed sharp binding optimal conclusive.dustless
  have inside : k < (p.withLimit k l).constraints.length := by
    have place := getElem?_withLimit (p := p) (k := k) l k
    rw [hc] at place
    exact (List.getElem?_eq_some_iff.mp place).1
  rw [← relaxed_withLimit hc l m]
  exact not_unbounded_relaxed wellFormed sharp binding priced inside _

/-- **Between two limits with an optimum there is an optimum**, and it is no worse than what lies
between theirs. -/
theorem optimal_between {q : ℚ} (conclusive : Conclusive s (p.withLimit k l))
    (conclusive' : Conclusive s (p.withLimit k m)) (conclusive'' : Conclusive s (p.withLimit k q))
    (above : l < q) (below : q < m) (first : (solve s (p.withLimit k l)).status = .optimal)
    (last : (solve s (p.withLimit k m)).status = .optimal) :
    (solve s (p.withLimit k q)).status = .optimal ∧
      ∃ a b d, (solve s (p.withLimit k l)).objective = some a ∧
        (solve s (p.withLimit k q)).objective = some b ∧
        (solve s (p.withLimit k m)).objective = some d ∧
        0 ≤ p.objective.sense.improvement b (interpolate ((q - l) / (m - l)) a d) := by
  have apart : 0 < m - l := by linarith
  have nonneg : 0 ≤ (q - l) / (m - l) := div_nonneg (by linarith) apart.le
  have le_one : (q - l) / (m - l) ≤ 1 := (div_le_one apart).mpr (by linarith)
  have between : interpolate ((q - l) / (m - l)) l m = q := by
    rw [interpolate, div_mul_cancel₀ _ apart.ne']
    ring
  obtain ⟨x, hx, objectiveX, -⟩ := exists_best (h.withLimit hc l) sharp binding conclusive first
  obtain ⟨y, hy, objectiveY, -⟩ := exists_best (h.withLimit hc m) sharp binding conclusive' last
  -- a point on the way between the two optima rules out that nothing is feasible, and the prices of the
  -- first optimum that there is no end
  have mixed : (p.withLimit k q).Feasible (mix ((q - l) / (m - l)) x y) := by
    have allowed := hx.mix nonneg le_one hy
    rwa [between] at allowed
  have optimal : (solve s (p.withLimit k q)).status = .optimal := by
    cases status : (solve s (p.withLimit k q)).status with
    | optimal => rfl
    | infeasible => exact absurd mixed (not_feasible_of_infeasible (h.withLimit hc q) sharp binding status _)
    | unbounded => exact absurd status (not_unbounded_of_optimal h sharp binding hc conclusive first q)
    | pivotLimit => exact absurd status conclusive''.ended
  obtain ⟨z, -, objectiveZ, best⟩ := exists_best (h.withLimit hc q) sharp binding conclusive'' optimal
  refine ⟨optimal, _, _, _, objectiveX, objectiveZ, objectiveY, ?_⟩
  have bound : p.objective.sense.improvement (p.valueAt (mix ((q - l) / (m - l)) x y)) (p.valueAt z) ≤ 0 :=
    best _ mixed
  rw [valueAt_mix _ (hx.within.length_eq.symm.trans hy.within.length_eq)] at bound
  change 0 ≤ p.objective.sense.improvement (p.valueAt z)
    (interpolate ((q - l) / (m - l)) (p.valueAt x) (p.valueAt y))
  unfold Sense.improvement at bound ⊢
  linarith

theorem improvement_looser (conclusive : Conclusive s (p.withLimit k l))
    (conclusive' : Conclusive s (p.withLimit k m)) (looser : c.relation.Holds l m)
    (tight : (solve s (p.withLimit k l)).status = .optimal)
    (loose : (solve s (p.withLimit k m)).status = .optimal) :
    ∃ a b, (solve s (p.withLimit k l)).objective = some a ∧
      (solve s (p.withLimit k m)).objective = some b ∧ 0 ≤ p.objective.sense.improvement b a := by
  obtain ⟨x, hx, objectiveX, -⟩ := exists_best (h.withLimit hc l) sharp binding conclusive tight
  obtain ⟨y, -, objectiveY, best⟩ := exists_best (h.withLimit hc m) sharp binding conclusive' loose
  refine ⟨_, _, objectiveX, objectiveY, ?_⟩
  have bound : p.objective.sense.improvement (p.valueAt x) (p.valueAt y) ≤ 0 :=
    best x (hx.looser hc looser)
  change 0 ≤ p.objective.sense.improvement (p.valueAt y) (p.valueAt x)
  unfold Sense.improvement at bound ⊢
  linarith

end Limits

/-! ## The sweep -/

section Sweep

variable {s : SolverSettings ℚ} {p : Program ℚ} {k : ℕ} {c : Constraint ℚ} (h : p.WellFormed)
  (hc : p.constraints[k]? = some c)
include h hc

theorem sweepPoint_eq (limit : ℚ) : sweepPoint s p c.label limit = .ok (p.pointAt s k limit) := by
  rw [sweepPoint, changed_limit h hc]
  rfl

/-- **A sweep has one point per limit, in order.** -/
theorem sweep_eq (limits : List ℚ) : sweep s p c.label limits = .ok (limits.map (p.pointAt s k)) := by
  unfold sweep
  induction limits with
  | nil => rfl
  | cons limit limits ih =>
    rw [List.mapM_cons, sweepPoint_eq h hc, ih]
    rfl

end Sweep

/-- **A sweep is monotone and concave**, for every valid program without tolerances, every constraint of
it and all limits, as long as every solve comes to a verdict and takes no quantity for dust. Its points
are the solves at the limits, one for each and in order. -/
theorem sweep_regular (s : SolverSettings ℚ) (p : Program ℚ) (valid : p.flaw? = none)
    (sharp : s.pivotTolerance = 0) (binding : s.bindingTolerance = 0) (k : ℕ) (c : Constraint ℚ)
    (hc : p.constraints[k]? = some c) (limits : List ℚ)
    (conclusive : ∀ limit ∈ limits, Conclusive s (p.withLimit k limit)) :
    ∃ points, sweep s p c.label limits = .ok points ∧ points = limits.map (p.pointAt s k) ∧
      points.map (·.limit) = limits ∧ Regular p.objective.sense c.relation points := by
  have h := p.flaw?_eq_none_iff.mp valid
  refine ⟨limits.map (p.pointAt s k), sweep_eq h hc limits, rfl, ?_, ?_⟩
  · rw [List.map_map]
    exact List.map_id limits
  constructor
  case reached =>
    simp only [List.forall_mem_map]
    exact fun l _ m _ looser => not_infeasible_of_looser h sharp binding hc looser
  case monotone =>
    simp only [List.forall_mem_map]
    exact fun l hl m hm looser => improvement_looser h sharp binding hc (conclusive l hl) (conclusive m hm) looser
  case unbounded =>
    simp only [List.forall_mem_map]
    intro l hl m hm unbounded
    cases status : (solve s (p.withLimit k m)).status with
    | optimal => exact absurd unbounded (not_unbounded_of_optimal h sharp binding hc (conclusive m hm) status l)
    | infeasible => exact .inr status
    | unbounded => exact .inl status
    | pivotLimit => exact absurd status (conclusive m hm).ended
  case concave =>
    simp only [List.forall_mem_map]
    exact fun l hl q hq m hm above below => optimal_between h sharp binding hc (conclusive l hl)
      (conclusive m hm) (conclusive q hq) above below

/-- A sweep of an equality, in no order and over limits that nothing satisfies. -/
theorem sweep_regular_sample :
    (Program.sample.flaw? = none ∧
      ∀ limit ∈ [20, 5, 2, 7 / 2], Conclusive ⟨100, 0, 0⟩ (Program.sample.withLimit 2 limit)) ∧
    ∃ points, sweep ⟨100, 0, 0⟩ Program.sample "mix" [20, 5, 2, 7 / 2] = .ok points ∧
      points = [20, 5, 2, 7 / 2].map (Program.sample.pointAt ⟨100, 0, 0⟩ 2) ∧
      points.map (·.limit) = [20, 5, 2, 7 / 2] ∧ Regular .maximize .equal points := by
  have conclusive : ∀ limit ∈ ([20, 5, 2, 7 / 2] : List ℚ),
      Conclusive ⟨100, 0, 0⟩ (Program.sample.withLimit 2 limit) := by decide +kernel
  exact ⟨⟨Program.flaw?_sample, conclusive⟩, sweep_regular ⟨100, 0, 0⟩ Program.sample Program.flaw?_sample
    rfl rfl 2 ⟨"mix", [2, 1], .equal, 5⟩ rfl _ conclusive⟩

end Allotment
