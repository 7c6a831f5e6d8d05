import Allotment.Scalar

/-!
# Settings

What a caller can set about solving, rounding and pricing, with the values that hold when
nothing is said.
-/

namespace Allotment
set_option autoImplicit false

variable {α : Type} [Scalar α]

/-- Settings of the simplex method. -/
structure SolverSettings (α : Type) where
  /-- Pivots allowed over both phases together. -/
  maxPivots : Nat
  /-- Tableau entries and reduced costs up to this count as zero. -/
  pivotTolerance : α
  /-- Slacks up to this magnitude count as none. -/
  bindingTolerance : α
  deriving DecidableEq, Repr

/-- The slack up to which a constraint is binding when nothing else is said. -/
def defaultBindingTolerance : α := 1e-6

/-- Ten thousand pivots, with tolerances of a billionth and a millionth. -/
def SolverSettings.default : SolverSettings α where
  maxPivots := 10000
  pivotTolerance := 1e-9
  bindingTolerance := defaultBindingTolerance

/-- Settings of the search for a whole-unit allocation. -/
structure RoundingSettings where
  /-- How far from its rounded value each quantity is searched. -/
  searchRadius : UInt32
  /-- How many points of the neighbourhood are examined at most. -/
  maxCandidates : Nat
  deriving DecidableEq, Repr

/-- Two units each way, and a million candidates. -/
def RoundingSettings.default : RoundingSettings where
  searchRadius := 2
  maxCandidates := 1000000

/-- How the price of a constraint is found: read off the final tableau, or as the slope of the
optimum when the limit is relaxed by a step and the program solved again. -/
inductive PricingMethod (α : Type) where
  | dual
  | finiteDifference (step : α)
  deriving DecidableEq, Repr

/-- The step that a limit is relaxed by when nothing else is said. -/
def defaultStep : α := 1e-3

/-- Settings of the pricing of constraints. -/
structure PricingSettings (α : Type) where
  finiteDifference : Bool
  step : α
  deriving DecidableEq, Repr

/-- Dual values; the step matters only once finite differences are asked for. -/
def PricingSettings.default : PricingSettings α where
  finiteDifference := false
  step := defaultStep

/-- The method that the settings ask for. -/
def PricingSettings.method (s : PricingSettings α) : PricingMethod α :=
  if s.finiteDifference then .finiteDifference s.step else .dual

end Allotment
