import Allotment.Json
import Allotment.Settings

/-!
# The JSON form of settings

Every field of the settings may be left out and then has its default. Counts are whole numbers
in the range of machine words. How the other numbers are read is left open, so that a format
with numbers that JSON lacks can use the same fields.
-/

namespace Allotment
set_option autoImplicit false

variable {α : Type} [Scalar α]

/-- A count of 64 bits. -/
def Json.word64? (j : Json α) : Option Nat := j.natBelow? (Nat.pow 2 64)

/-- A count of 32 bits. -/
def Json.word32? (j : Json α) : Option UInt32 := (j.natBelow? (Nat.pow 2 32)).map UInt32.ofNat

namespace SolverSettings

/-- The JSON form. -/
def toJson (s : SolverSettings α) : Json α :=
  .obj
    [("max_iterations", .ofNat s.maxPivots), ("pivot_tolerance", .ofReal s.pivotTolerance),
      ("binding_tolerance", .ofReal s.bindingTolerance)]

/-- The fields. -/
def shape : List (List String) :=
  [["max_iterations"], ["pivot_tolerance"], ["binding_tolerance"]]

/-- The settings that a value gives, with its numbers read in some way. -/
def read? (number? : Json α → Option α) (j : Json α) : Option (SolverSettings α) := do
  let base : SolverSettings α := .default
  let fields ← j.record? shape
  let maxPivots ← fields.optional? "max_iterations" base.maxPivots Json.word64?
  let pivotTolerance ← fields.optional? "pivot_tolerance" base.pivotTolerance number?
  let bindingTolerance ← fields.optional? "binding_tolerance" base.bindingTolerance number?
  return { maxPivots, pivotTolerance, bindingTolerance }

/-- The settings that a JSON value gives. -/
def ofJson? : Json α → Option (SolverSettings α) := read? Json.real?

end SolverSettings

namespace RoundingSettings

/-- The JSON form. -/
def toJson (s : RoundingSettings) : Json α :=
  .obj
    [("search_radius", .ofNat s.searchRadius.toNat), ("max_candidates", .ofNat s.maxCandidates)]

/-- The fields. -/
def shape : List (List String) := [["search_radius"], ["max_candidates"]]

/-- The settings that a JSON value gives. -/
def ofJson? (j : Json α) : Option RoundingSettings := do
  let base : RoundingSettings := .default
  let fields ← j.record? shape
  let searchRadius ← fields.optional? "search_radius" base.searchRadius Json.word32?
  let maxCandidates ← fields.optional? "max_candidates" base.maxCandidates Json.word64?
  return { searchRadius, maxCandidates }

end RoundingSettings

namespace PricingSettings

/-- The JSON form. -/
def toJson (s : PricingSettings α) : Json α :=
  .obj [("finite_difference", .bool s.finiteDifference), ("step", .ofReal s.step)]

/-- The fields. -/
def shape : List (List String) := [["finite_difference"], ["step"]]

/-- The settings that a value gives, with its numbers read in some way. -/
def read? (number? : Json α → Option α) (j : Json α) : Option (PricingSettings α) := do
  let base : PricingSettings α := .default
  let fields ← j.record? shape
  let finiteDifference ← fields.optional? "finite_difference" base.finiteDifference Json.bool?
  let step ← fields.optional? "step" base.step number?
  return { finiteDifference, step }

/-- The settings that a JSON value gives. -/
def ofJson? : Json α → Option (PricingSettings α) := read? Json.real?

end PricingSettings

end Allotment
