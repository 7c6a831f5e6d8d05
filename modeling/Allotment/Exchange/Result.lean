import Allotment.Exchange.Draft
import Allotment.Summary
import Allotment.Wording

/-!
# The JSON form of results

Solutions, prices, whole-unit allocations, comparisons and their summaries, as they are handed
to a reader. A number that is absent is null in a full result, and left out of a summary.
-/

namespace Allotment
set_option autoImplicit false

/-- The member of an object for a value that may be absent; none, if it is. -/
def Json.present {β : Type} (name : String) (write : β → Json Float) (value : Option β) :
    List (String × Json Float) :=
  value.toList.map fun value => (name, write value)

namespace Status

/-- The word for a status. -/
def word : Status → String
  | optimal => "optimal"
  | infeasible => "infeasible"
  | unbounded => "unbounded"
  | pivotLimit => "iteration_limit"

/-- The JSON form. -/
def toJson (s : Status) : Json Float := .str s.word

end Status

/-- The JSON form of the usage of a constraint. -/
def Usage.toJson (u : Usage Float) : Json Float :=
  .obj
    [("label", .str u.label), ("consumed", .ofReal u.consumed), ("slack", .ofReal u.slack),
      ("binding", .bool u.binding)]

/-- The JSON form of a violation. -/
def Violation.toJson (v : Violation Float) : Json Float :=
  .obj
    [("constraint", .str v.label), ("required", .ofReal v.required),
      ("actual", .ofReal v.actual), ("violation_amount", .ofReal v.amount),
      ("description", .str v.description)]

/-- The JSON form of a solution. -/
def Solution.toJson (s : Solution Float) : Json Float :=
  .obj
    [("status", s.status.toJson), ("variables", .ofList .str s.names),
      ("values", .ofList .ofReal s.values), ("objective_value", .ofOption .ofReal s.objective),
      ("constraints", .ofList Usage.toJson s.usage),
      ("violations", .ofList Violation.toJson s.violations), ("iterations", .ofNat s.pivots)]

/-- The JSON form of a priced constraint. -/
def ConstraintPrice.toJson (c : ConstraintPrice Float) : Json Float :=
  .obj
    [("label", .str c.label), ("op", c.relation.toJson), ("limit", .ofReal c.limit),
      ("consumed", .ofReal c.consumed), ("slack", .ofReal c.slack),
      ("binding", .bool c.binding), ("shadow_price", .ofReal c.price),
      ("interpretation", .str c.meaning.text)]

/-- The JSON form of a reduced cost. -/
def ReducedCost.toJson (r : ReducedCost Float) : Json Float :=
  .obj
    [("variable", .str r.name), ("value", .ofReal r.value), ("reduced_cost", .ofReal r.cost),
      ("is_basic", .bool r.basic)]

/-- The JSON form of a table of prices. -/
def PriceTable.toJson (t : PriceTable Float) : Json Float :=
  .obj
    [("constraints", .ofList ConstraintPrice.toJson t.constraints),
      ("reduced_costs", .ofList ReducedCost.toJson t.reducedCosts)]

namespace WholeUnits

/-- The word for how a search for whole units ended. -/
def Ending.word : Ending → String
  | rounded => "rounded"
  | searched => "searched"
  | exhausted => "exhausted"
  | noOptimum => "no_continuous_optimum"

/-- The JSON form of a count of units. -/
def unitsJson (n : Int64) : Json Float := .int n.toInt

/-- The JSON form of a whole-unit allocation. -/
def Allocation.toJson (a : Allocation Float) : Json Float :=
  .obj
    [("status", .str a.ending.word), ("feasible", .bool a.feasible),
      ("variables", .ofList .str a.names), ("values", .ofList unitsJson a.units),
      ("objective_value", .ofOption .ofReal a.objective),
      ("continuous_objective", .ofOption .ofReal a.continuousObjective),
      ("objective_gap", .ofOption .ofReal a.gap),
      ("relative_gap", .ofOption .ofReal a.relativeGap),
      ("candidates_examined", .ofNat a.examined), ("truncated", .bool a.truncated)]

end WholeUnits

/-- The JSON form of what came of a comparison. -/
def Outcome.toJson : Outcome → Json Float
  | compared => .str "compared"
  | becameInfeasible => .str "became_infeasible"
  | becameFeasible => .str "became_feasible"
  | notComparable base changed =>
    .obj
      [("not_comparable", .obj [("base", base.toJson), ("perturbed", changed.toJson)])]

/-- The members of an object for one quantity in both optima. -/
def Shift.members (s : Shift Float) : List (String × Json Float) :=
  [("base", .ofReal s.base), ("perturbed", .ofReal s.changed), ("delta", .ofReal s.delta)]

/-- The JSON form of a comparison. -/
def Comparison.toJson (c : Comparison Float) : Json Float :=
  .obj
    [("base", c.base.toJson), ("perturbed", c.changed.toJson), ("outcome", c.outcome.toJson),
      ("variable_deltas",
        .ofList (fun s => .obj (("variable", .str s.name) :: s.members)) c.shifts),
      ("objective_delta", .ofOption .ofReal c.objectiveDelta),
      ("objective_change_percent", .ofOption .ofReal c.objectivePercent)]

/-- The JSON form of a point of a sweep. -/
def SweepPoint.toJson (s : SweepPoint Float) : Json Float :=
  .obj
    [("limit", .ofReal s.limit), ("status", s.status.toJson),
      ("objective_value", .ofOption .ofReal s.objective), ("values", .ofList .ofReal s.values)]

/-- The JSON form of the summary of a whole-unit allocation. -/
def UnitsSummary.toJson (s : UnitsSummary Float) : Json Float :=
  .obj
    ([("feasible", .bool s.feasible), ("status", .str s.ending.word),
        ("values", .ofMap WholeUnits.unitsJson s.units)] ++
      Json.present "objective_value" .ofReal s.objective ++
      Json.present "objective_gap" .ofReal s.gap ++
      Json.present "relative_gap" .ofReal s.relativeGap ++
      [("candidates_examined", .ofNat s.examined), ("truncated", .bool s.truncated)])

/-- The JSON form of the summary of a solved program. -/
def SolveSummary.toJson (s : SolveSummary Float) : Json Float :=
  .obj
    ([("feasible", .bool s.feasible), ("status", s.status.toJson),
        ("iterations", .ofNat s.pivots)] ++
      Json.present "objective_value" .ofReal s.objective ++
      [("values", .ofMap .ofReal s.values),
        ("constraint_report", .ofList ConstraintPrice.toJson s.constraints),
        ("reduced_costs", .ofMap .ofReal s.reducedCosts)] ++
      (if s.violations.isEmpty then []
        else [("violations", .ofList Violation.toJson s.violations)]) ++
      Json.present "integer_result" UnitsSummary.toJson s.units)

/-- The JSON form of the summary of a comparison. -/
def ComparisonSummary.toJson (s : ComparisonSummary Float) : Json Float :=
  .obj
    ([("outcome", s.outcome.toJson), ("base_status", s.baseStatus.toJson),
        ("perturbed_status", s.changedStatus.toJson)] ++
      Json.present "base_objective" .ofReal s.baseObjective ++
      Json.present "perturbed_objective" .ofReal s.changedObjective ++
      Json.present "objective_delta" .ofReal s.objectiveDelta ++
      Json.present "objective_change_percent" .ofReal s.objectivePercent ++
      [("variable_deltas", .ofMap (fun shift => .obj shift.members) s.shifts)])

end Allotment
