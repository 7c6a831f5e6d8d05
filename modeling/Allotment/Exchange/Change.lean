import Allotment.Change
import Allotment.Json

/-!
# The JSON form of changes

A change is an object whose member `kind` says which other members it has. How the numbers of a
change are read is left open, so that a caller can admit more than finite numbers.
-/

namespace Allotment.Change
set_option autoImplicit false

variable {α : Type} [Scalar α]

/-- The name of the member that says which change it is. -/
def kindName : String := "kind"

/-- The JSON form. -/
def toJson : Change α → Json α
  | objectiveCoefficient name value =>
    .obj [(kindName, .str "objective_coefficient"), ("variable", .str name),
      ("value", .ofReal value)]
  | scaleObjectiveCoefficient name factor =>
    .obj [(kindName, .str "scale_objective_coefficient"), ("variable", .str name),
      ("factor", .ofReal factor)]
  | coefficient label name value =>
    .obj [(kindName, .str "coefficient"), ("constraint", .str label), ("variable", .str name),
      ("value", .ofReal value)]
  | scaleConstraint label factor =>
    .obj [(kindName, .str "scale_constraint"), ("constraint", .str label),
      ("factor", .ofReal factor)]
  | limit label value =>
    .obj [(kindName, .str "limit"), ("constraint", .str label), ("value", .ofReal value)]
  | scaleLimit label factor =>
    .obj [(kindName, .str "scale_limit"), ("constraint", .str label),
      ("factor", .ofReal factor)]
  | shiftLimit label delta =>
    .obj [(kindName, .str "shift_limit"), ("constraint", .str label), ("delta", .ofReal delta)]
  | upperBound name value =>
    .obj [(kindName, .str "upper_bound"), ("variable", .str name),
      ("value", .ofOption .ofReal value)]

/-- The upper bound that a change sets. In an object it may be left out and is none then; in a list
it has its place. -/
def bound? (number? : Json α → Option α) (members : Json α) (fields : Fields α) :
    Option (Option α) :=
  match members with
  | .arr _ => fields.required? "value" (Json.option? number?)
  | _ => fields.optional? "value" none (Json.option? number?)

/-- The change of a kind whose other members are given. -/
def ofMembers? (number? : Json α → Option α) (kind : String) (members : Json α) :
    Option (Change α) :=
  match kind with
  | "objective_coefficient" => do
    let fields ← members.record? [["variable"], ["value"]]
    let name ← fields.required? "variable" Json.string?
    let value ← fields.required? "value" number?
    return objectiveCoefficient name value
  | "scale_objective_coefficient" => do
    let fields ← members.record? [["variable"], ["factor"]]
    let name ← fields.required? "variable" Json.string?
    let factor ← fields.required? "factor" number?
    return scaleObjectiveCoefficient name factor
  | "coefficient" => do
    let fields ← members.record? [["constraint"], ["variable"], ["value"]]
    let label ← fields.required? "constraint" Json.string?
    let name ← fields.required? "variable" Json.string?
    let value ← fields.required? "value" number?
    return coefficient label name value
  | "scale_constraint" => do
    let fields ← members.record? [["constraint"], ["factor"]]
    let label ← fields.required? "constraint" Json.string?
    let factor ← fields.required? "factor" number?
    return scaleConstraint label factor
  | "limit" => do
    let fields ← members.record? [["constraint"], ["value"]]
    let label ← fields.required? "constraint" Json.string?
    let value ← fields.required? "value" number?
    return limit label value
  | "scale_limit" => do
    let fields ← members.record? [["constraint"], ["factor"]]
    let label ← fields.required? "constraint" Json.string?
    let factor ← fields.required? "factor" number?
    return scaleLimit label factor
  | "shift_limit" => do
    let fields ← members.record? [["constraint"], ["delta"]]
    let label ← fields.required? "constraint" Json.string?
    let delta ← fields.required? "delta" number?
    return shiftLimit label delta
  | "upper_bound" => do
    let fields ← members.record? [["variable"], ["value"]]
    let name ← fields.required? "variable" Json.string?
    let value ← bound? number? members fields
    return upperBound name value
  | _ => none

/-- **The change that a JSON value describes**: an object with its kind among the members, or a
list that starts with the kind. -/
def ofJson? (number? : Json α → Option α) : Json α → Option (Change α)
  | .obj members =>
    match members.filter (·.1 == kindName) with
    | [(_, .str kind)] => ofMembers? number? kind (.obj members)
    | _ => none
  | .arr (.str kind :: rest) => ofMembers? number? kind (.arr rest)
  | _ => none

end Allotment.Change
