import Allotment.Simplex.TwoPhase

/-!
# Prices of constraints

The price of a constraint is the change of the optimal objective per unit that its limit is
relaxed by: raised for a maximum or an equality, lowered for a minimum. A constraint that still
has slack has the price zero. `Pricer.table` prices every constraint of an optimum and says what
each price means; without an optimum the table is empty.
-/

namespace Allotment
set_option autoImplicit false

/-- **What the price of a constraint means.** -/
inductive PriceMeaning (α : Type) where
  /-- The constraint is not binding; this much of it is unused. -/
  | unused (slack : α)
  /-- The constraint is binding, and relaxing it gains nothing. -/
  | idle
  /-- Relaxing the constraint by one unit moves the objective by this much, up or down. -/
  | moves (label : String) (sense : Sense) (up : Bool) (amount : α)
  deriving DecidableEq, Repr

/-- One constraint at an optimum, with its price. -/
structure ConstraintPrice (α : Type) where
  label : String
  relation : Relation
  limit : α
  consumed : α
  slack : α
  binding : Bool
  price : α
  meaning : PriceMeaning α
  deriving DecidableEq, Repr

/-- One variable at an optimum, with the change of the objective per unit that it is raised by. -/
structure ReducedCost (α : Type) where
  name : String
  value : α
  cost : α
  basic : Bool
  deriving DecidableEq, Repr

/-- The prices of all constraints and the reduced costs of all variables, in their order. -/
structure PriceTable (α : Type) where
  constraints : List (ConstraintPrice α)
  reducedCosts : List (ReducedCost α)
  deriving DecidableEq, Repr

/-- Who prices: the slack that counts as none, the method, and how to solve again. -/
structure Pricer (α : Type) where
  bindingTolerance : α
  method : PricingMethod α
  solver : SolverSettings α
  deriving DecidableEq, Repr

variable {α : Type} [Scalar α]

namespace PriceTable

/-- The table without entries. -/
def empty : PriceTable α := { constraints := [], reducedCosts := [] }

/-- Whether there are no entries. -/
def isEmpty (t : PriceTable α) : Bool := t.constraints.isEmpty && t.reducedCosts.isEmpty

/-- The price of the constraint of a label. -/
def price? (t : PriceTable α) (label : String) : Option α :=
  (t.constraints.find? (·.label == label)).map (·.price)

/-- The binding constraints. -/
def binding (t : PriceTable α) : List (ConstraintPrice α) := t.constraints.filter (·.binding)

/-- Of two constraints the one with the greater price in magnitude, the second on a tie. -/
def dearer (best : Option (ConstraintPrice α)) (c : ConstraintPrice α) :
    Option (ConstraintPrice α) :=
  match best with
  | none => some c
  | some b => if Scalar.totalLe (Scalar.abs b.price) (Scalar.abs c.price) then some c else some b

/-- **The bottleneck**: the binding constraint with the price of greatest magnitude, the last of
equals; none if every binding constraint has the price zero. -/
def bottleneck? (t : PriceTable α) : Option (ConstraintPrice α) :=
  (t.binding.filter fun c => !(c.price == 0)).foldl dearer none

end PriceTable

namespace Pricer

/-- Prices as the settings ask for them. -/
def ofSettings (solver : SolverSettings α) (pricing : PricingSettings α) : Pricer α where
  bindingTolerance := solver.bindingTolerance
  method := pricing.method
  solver

/-- The objective gained per unit when a constraint is relaxed by a step, where the relaxed
program still has an optimum. -/
def slope? (s : SolverSettings α) (p : Program α) (index : Nat) (objective step : α) :
    Option α :=
  let relaxed := Simplex.solve s (p.relaxed index step)
  if relaxed.isOptimal then relaxed.objective.map fun value => (value - objective) / step
  else none

/-- The price of a binding constraint. Where the relaxed program has no optimum, the dual value
stands in for the slope. -/
def bindingPrice (r : Pricer α) (p : Program α) (s : Solution α) (index : Nat)
    (objective : α) : α :=
  let dual := s.duals.getD index 0
  match r.method with
  | .dual => dual
  | .finiteDifference step => (slope? r.solver p index objective step).getD dual

/-- What a price means. -/
def meaning (r : Pricer α) (sense : Sense) (label : String) (slack : α) (binding : Bool)
    (price : α) : PriceMeaning α :=
  if !binding then .unused slack
  else if Scalar.abs price < r.bindingTolerance then .idle
  else .moves label sense (decide (0 < price)) (Scalar.abs price)

/-- One constraint of a program at an optimum, priced. -/
def constraintPrice (r : Pricer α) (p : Program α) (s : Solution α) (objective : α)
    (c : Constraint α) (index : Nat) : ConstraintPrice α :=
  let consumed := c.consumed s.values
  let slack := c.slack consumed
  let binding := isBinding slack r.bindingTolerance
  let price := if binding then r.bindingPrice p s index objective else 0
  { label := c.label
    relation := c.relation
    limit := c.limit
    consumed
    slack
    binding
    price
    meaning := r.meaning p.objective.sense c.label slack binding price }

/-- The variables of a program at a solution, with their reduced costs. -/
def reducedCosts (p : Program α) (s : Solution α) : List (ReducedCost α) :=
  (p.vars.zip s.values).zipIdx.map fun ((v, value), j) =>
    { name := v.name
      value
      cost := s.reducedCosts.getD j 0
      basic := s.basic.getD j false }

/-- **The prices at a solution**; the empty table unless it is an optimum of the program. -/
def table (r : Pricer α) (p : Program α) (s : Solution α) : PriceTable α :=
  match s.optimum? p.vars.length with
  | none => .empty
  | some objective =>
    { constraints := p.constraints.zipIdx.map fun (c, i) => r.constraintPrice p s objective c i
      reducedCosts := reducedCosts p s }

end Pricer

end Allotment
