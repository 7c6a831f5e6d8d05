import Allotment.Summary
import Allotment.Text.Field
import Allotment.Wording

/-!
# Text pages

The summaries as a person reads them, line by line. Names stand in columns of twenty, numbers
are set to the right.
-/

namespace Allotment.Console
set_option autoImplicit false

open Allotment.Decimal
open Allotment.Text

/-- A name in its column. -/
def nameField (name : String) : String := field .left 20 name

/-- A number in a column, with a set number of places. -/
def numberField (width places : Nat) (x : Float) : String :=
  field .right width (fixed places x false)

/-- A difference in a column, always with its sign. -/
def deltaField (width places : Nat) (x : Float) : String :=
  field .right width (fixed places x true)

/-- The status as a page shows it. -/
def statusWord : Status → String
  | .optimal => "OPTIMAL"
  | .infeasible => "INFEASIBLE"
  | .unbounded => "UNBOUNDED"
  | .pivotLimit => "ITERATION LIMIT"

/-- Lines under a heading, after an empty line; nothing, if there are none. -/
def headed (heading : String) (lines : List String) : List String :=
  if lines.isEmpty then [] else "" :: heading :: lines

/-- How a search for whole units ended, as a page shows it. -/
def endingWord : WholeUnits.Ending → String
  | .rounded => "rounded"
  | .searched => "neighborhood search"
  | .exhausted => "search exhausted"
  | .noOptimum => "no continuous optimum"

/-- The lines about a whole-unit allocation. -/
def unitsLines (s : UnitsSummary Float) : List String :=
  ("Whole-unit allocation (" ++ endingWord s.ending ++ "):") ::
    if s.feasible then
      s.units.entries.map (fun (name, n) =>
        "  " ++ nameField name ++ " " ++ field .right 14 (toString n.toInt)) ++
      match s.objective, s.gap with
      | some objective, some gap =>
        ["  Objective: " ++ amountText objective ++ " (gap " ++ amountText gap ++ ")"]
      | _, _ => []
    else
      "  No feasible whole-unit allocation found near the optimum." ::
        if s.truncated then
          ["  Search stopped after " ++ toString s.examined ++ " candidates."]
        else []

/-- The lines about one priced constraint: where it stands and, if it is binding, what its
price means. -/
def constraintLines (c : ConstraintPrice Float) : List String :=
  ("  " ++ nameField c.label ++ " " ++ numberField 14 4 c.consumed ++ " " ++
      field .left 2 c.relation.symbol ++ " " ++ numberField 14 4 c.limit ++ "  slack " ++
      numberField 12 4 c.slack ++ "  " ++ field .left 7 (if c.binding then "BINDING" else "") ++
      "  price " ++ numberField 10 4 c.price) ::
    if c.binding then ["    " ++ c.meaning.text] else []

/-- Whether a reduced cost is large enough to be shown. -/
def isShownCost (cost : Float) : Bool := decide (0.001 < cost.abs)

/-- The lines about an optimum. -/
def optimumLines (s : SolveSummary Float) : List String :=
  s.objective.toList.map (fun objective => "Objective: " ++ amountText objective) ++
    ["", "Allocation:"] ++
    s.values.entries.map (fun (name, x) =>
      "  " ++ nameField name ++ " " ++ numberField 14 4 x) ++
    ["", "Constraints:"] ++
    s.constraints.flatMap constraintLines ++
    headed "Reduced costs (variables left at their bound):"
      ((s.reducedCosts.entries.filter fun entry => isShownCost entry.2).map fun (name, cost) =>
        "  " ++ nameField name ++ " objective changes by " ++ priceText cost ++
          " per unit forced in") ++
    match s.units with
    | none => []
    | some units => "" :: unitsLines units

/-- **The page of a solved program.** -/
def solveLines (s : SolveSummary Float) : List String :=
  ("Status: " ++ statusWord s.status) ::
    match s.status with
    | .optimal => optimumLines s
    | .infeasible =>
      "No allocation satisfies all constraints." ::
        headed "Closest attempt violates:"
          (s.violations.map fun v => "  - " ++ v.description)
    | .unbounded => ["The objective can be improved without limit."]
    | .pivotLimit =>
      ["Gave up after " ++ toString s.pivots ++ " pivots without proving optimality."]

/-- The lines about the differences of two optima. -/
def shiftLines (s : ComparisonSummary Float) : List String :=
  (nameField "" ++ " " ++ field .right 14 "base" ++ " " ++ field .right 14 "perturbed" ++ " " ++
      field .right 14 "change") ::
    s.shifts.entries.map (fun (name, shift) =>
      nameField name ++ " " ++ numberField 14 4 shift.base ++ " " ++
        numberField 14 4 shift.changed ++ " " ++ deltaField 14 4 shift.delta) ++
    (match s.baseObjective, s.changedObjective, s.objectiveDelta with
      | some base, some changed, some delta =>
        [nameField "objective" ++ " " ++ numberField 14 2 base ++ " " ++
          numberField 14 2 changed ++ " " ++ deltaField 14 2 delta]
      | _, _, _ => []) ++
    match s.objectivePercent with
    | none => []
    | some percent => ["", "Objective changed by " ++ fixed 2 percent true ++ "%"]

/-- **The page of a comparison.** -/
def comparisonLines (s : ComparisonSummary Float) : List String :=
  match s.outcome with
  | .compared => shiftLines s
  | .becameInfeasible => ["The change makes the problem infeasible."]
  | .becameFeasible =>
    "The change makes an infeasible problem solvable." ::
      s.changedObjective.toList.map fun objective => "New objective: " ++ amountText objective
  | .notComparable base changed =>
    ["Not comparable: base is " ++ statusWord base ++ ", perturbed is " ++ statusWord changed ++
      "."]

/-- The sense of a program as a page shows it. -/
def senseWord : Sense → String
  | .maximize => "Maximize"
  | .minimize => "Minimize"

/-- The line about the bounds of a variable. -/
def variableLine (v : Variable Float) : String :=
  "    " ++ nameField v.name ++ " [" ++ sentence.text v.lower ++ ", " ++
    match v.upper with
    | none => "inf)"
    | some upper => sentence.text upper ++ "]"

/-- **The page of a well-formed program.** -/
def programLines (p : Program Float) : List String :=
  ["  " ++ toString p.vars.length ++ " variables",
      "  " ++ toString p.constraints.length ++ " constraints",
      "  direction: " ++ senseWord p.objective.sense] ++
    p.vars.map variableLine

end Allotment.Console
