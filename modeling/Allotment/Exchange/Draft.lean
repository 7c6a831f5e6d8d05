import Allotment.Draft
import Allotment.Json

/-!
# The JSON form of programs

A draft is read from JSON and written to it. Bounds may go by two spellings, the relation of a
constraint by two names, and senses and relations by several words; what is written has one
spelling. A finished program is written in its dense form.
-/

namespace Allotment
set_option autoImplicit false

variable {α : Type} [Scalar α]

namespace Sense

/-- The words for a sense, that which is written first. -/
def words : List (String × Sense) :=
  [("max", maximize), ("maximize", maximize), ("min", minimize), ("minimize", minimize)]

/-- The word that is written. -/
def word : Sense → String
  | maximize => "max"
  | minimize => "min"

/-- The JSON form. -/
def toJson (s : Sense) : Json α := .str s.word

/-- The sense that a JSON value names. -/
def ofJson? (j : Json α) : Option Sense := j.choice? words

end Sense

namespace Relation

/-- The words for a relation, that which is written first. -/
def words : List (String × Relation) :=
  [("<=", atMost), ("le", atMost), (">=", atLeast), ("ge", atLeast), ("=", equal),
    ("eq", equal), ("==", equal)]

/-- The JSON form. -/
def toJson (r : Relation) : Json α := .str r.symbol

/-- The relation that a JSON value names. -/
def ofJson? (j : Json α) : Option Relation := j.choice? words

end Relation

namespace Variable

/-- The JSON form of a variable of a draft. -/
def draftJson (v : Variable α) : Json α :=
  .obj
    [("name", .str v.name), ("lower_bound", .ofReal v.lower),
      ("upper_bound", .ofOption .ofReal v.upper)]

/-- The fields of a variable of a draft. -/
def draftShape : List (List String) :=
  [["name"], ["lower_bound", "lowerBound"], ["upper_bound", "upperBound"]]

/-- The variable that a JSON value describes: from zero on, and without an upper bound, unless
it says so. -/
def ofDraftJson? (j : Json α) : Option (Variable α) := do
  let fields ← j.record? draftShape
  let name ← fields.required? "name" Json.string?
  let lower ← fields.optional? "lower_bound" 0 Json.real?
  let upper ← fields.optional? "upper_bound" none (Json.option? Json.real?)
  return { name, lower, upper }

/-- The JSON form of a variable of a program. -/
def toJson (v : Variable α) : Json α :=
  .obj
    [("name", .str v.name), ("lower", .ofReal v.lower), ("upper", .ofOption .ofReal v.upper)]

end Variable

namespace DraftObjective

/-- The JSON form. -/
def toJson (o : DraftObjective α) : Json α :=
  .obj [("direction", o.sense.toJson), ("coefficients", .ofMap .ofReal o.coefficients)]

/-- The fields of the objective. -/
def shape : List (List String) := [["direction"], ["coefficients"]]

/-- The objective that a JSON value describes. -/
def ofJson? (j : Json α) : Option (DraftObjective α) := do
  let fields ← j.record? shape
  let sense ← fields.required? "direction" Sense.ofJson?
  let coefficients ← fields.optional? "coefficients" .empty (Json.map? Json.real?)
  return { sense, coefficients }

end DraftObjective

namespace DraftConstraint

/-- The JSON form. -/
def toJson (c : DraftConstraint α) : Json α :=
  .obj
    [("label", .str c.label), ("coefficients", .ofMap .ofReal c.coefficients),
      ("operator", c.relation.toJson), ("limit", .ofReal c.limit)]

/-- The fields of a constraint. -/
def shape : List (List String) := [["label"], ["coefficients"], ["operator", "op"], ["limit"]]

/-- The constraint that a JSON value describes. -/
def ofJson? (j : Json α) : Option (DraftConstraint α) := do
  let fields ← j.record? shape
  let label ← fields.required? "label" Json.string?
  let coefficients ← fields.required? "coefficients" (Json.map? Json.real?)
  let relation ← fields.required? "operator" Relation.ofJson?
  let limit ← fields.required? "limit" Json.real?
  return { label, coefficients, relation, limit }

end DraftConstraint

namespace Draft

/-- The JSON form. -/
def toJson (d : Draft α) : Json α :=
  .obj
    [("variables", .ofList Variable.draftJson d.vars), ("objective", d.objective.toJson),
      ("constraints", .ofList DraftConstraint.toJson d.constraints)]

/-- The fields of a draft. -/
def shape : List (List String) := [["variables"], ["objective"], ["constraints"]]

/-- **The draft that a JSON value describes.** -/
def ofJson? (j : Json α) : Option (Draft α) := do
  let fields ← j.record? shape
  let vars ← fields.required? "variables" (Json.list? Variable.ofDraftJson?)
  let objective ← fields.required? "objective" DraftObjective.ofJson?
  let constraints ← fields.optional? "constraints" [] (Json.list? DraftConstraint.ofJson?)
  return { vars, objective, constraints }

end Draft

/-- The JSON form of an objective. -/
def Objective.toJson (o : Objective α) : Json α :=
  .obj [("direction", o.sense.toJson), ("coefficients", .ofList .ofReal o.coefficients)]

/-- The JSON form of a constraint. -/
def Constraint.toJson (c : Constraint α) : Json α :=
  .obj
    [("label", .str c.label), ("coefficients", .ofList .ofReal c.coefficients),
      ("op", c.relation.toJson), ("limit", .ofReal c.limit)]

end Allotment
