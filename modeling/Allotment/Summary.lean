import Allotment.Comparison
import Allotment.NameMap
import Allotment.Pricing
import Allotment.WholeUnits.Allocation

/-!
# Summaries

What is reported of a solved program and of a comparison: the parts of the results that matter
to a reader, keyed by the names of the variables.
-/

namespace Allotment
set_option autoImplicit false

/-- What is reported of a whole-unit allocation. -/
structure UnitsSummary (α : Type) where
  feasible : Bool
  ending : WholeUnits.Ending
  units : NameMap Int64
  objective : Option α
  gap : Option α
  relativeGap : Option α
  examined : Nat
  truncated : Bool
  deriving DecidableEq, Repr

/-- **What is reported of a solved program.** -/
structure SolveSummary (α : Type) where
  feasible : Bool
  status : Status
  pivots : Nat
  objective : Option α
  values : NameMap α
  constraints : List (ConstraintPrice α)
  reducedCosts : NameMap α
  violations : List (Violation α)
  units : Option (UnitsSummary α)
  deriving DecidableEq, Repr

/-- **What is reported of a comparison.** -/
structure ComparisonSummary (α : Type) where
  outcome : Outcome
  baseStatus : Status
  changedStatus : Status
  baseObjective : Option α
  changedObjective : Option α
  objectiveDelta : Option α
  objectivePercent : Option α
  shifts : NameMap (Shift α)
  deriving DecidableEq, Repr

variable {α : Type} [Scalar α]

/-- What is reported of a whole-unit allocation. -/
def WholeUnits.Allocation.summary (a : WholeUnits.Allocation α) : UnitsSummary α where
  feasible := a.feasible
  ending := a.ending
  units := .ofList (a.names.zip a.units)
  objective := a.objective
  gap := a.gap
  relativeGap := a.relativeGap
  examined := a.examined
  truncated := a.truncated

/-- What is reported of a solution with its prices and, where asked for, its whole units. -/
def Solution.summary (s : Solution α) (prices : PriceTable α)
    (units : Option (WholeUnits.Allocation α)) : SolveSummary α where
  feasible := s.isFeasible
  status := s.status
  pivots := s.pivots
  objective := s.objective
  values := .ofList s.namedValues
  constraints := prices.constraints
  reducedCosts := .ofList (prices.reducedCosts.map fun r => (r.name, r.cost))
  violations := s.violations
  units := units.map (·.summary)

/-- What is reported of a comparison. -/
def Comparison.summary (c : Comparison α) : ComparisonSummary α where
  outcome := c.outcome
  baseStatus := c.base.status
  changedStatus := c.changed.status
  baseObjective := c.base.objective
  changedObjective := c.changed.objective
  objectiveDelta := c.objectiveDelta
  objectivePercent := c.objectivePercent
  shifts := .ofList (c.shifts.map fun shift => (shift.name, shift))

end Allotment
