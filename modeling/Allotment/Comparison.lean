import Allotment.Change
import Allotment.Simplex.TwoPhase

/-!
# Comparing optima

Two programs of the same shape are solved and their optima held against each other, quantity by
quantity. A question of what would happen is such a comparison with the changed program, and a
sweep solves a program once for each of several limits of one constraint.
-/

namespace Allotment
set_option autoImplicit false

/-- What came of a comparison. -/
inductive Outcome where
  /-- Both programs have an optimum. -/
  | compared
  /-- The base has an optimum and the other program is infeasible. -/
  | becameInfeasible
  /-- The base is infeasible and the other program has an optimum. -/
  | becameFeasible
  /-- Any other pair of statuses. -/
  | notComparable (base changed : Status)
  deriving DecidableEq, Repr

/-- One quantity in both optima. -/
structure Shift (α : Type) where
  name : String
  base : α
  changed : α
  delta : α
  deriving DecidableEq, Repr

/-- **Two solutions held against each other.** The differences are there only when both are
optima. -/
structure Comparison (α : Type) where
  base : Solution α
  changed : Solution α
  outcome : Outcome
  shifts : List (Shift α)
  objectiveDelta : Option α
  /-- The change of the objective in percent of the base, where that is not zero. -/
  objectivePercent : Option α
  deriving DecidableEq, Repr

/-- One point of a sweep. -/
structure SweepPoint (α : Type) where
  limit : α
  status : Status
  objective : Option α
  values : List α
  deriving DecidableEq, Repr

variable {α : Type} [Scalar α]

/-- What comes of comparing solutions with these statuses. -/
def Outcome.ofStatuses : Status → Status → Outcome
  | .optimal, .optimal => .compared
  | .optimal, .infeasible => .becameInfeasible
  | .infeasible, .optimal => .becameFeasible
  | base, changed => .notComparable base changed

namespace Outcome

variable {base changed : Status}

/-- A comparison is one of two optima just where both statuses say so. -/
theorem ofStatuses_eq_compared_iff :
    ofStatuses base changed = .compared ↔ base = .optimal ∧ changed = .optimal := by
  cases base <;> cases changed <;> decide

theorem ofStatuses_eq_becameInfeasible_iff :
    ofStatuses base changed = .becameInfeasible ↔ base = .optimal ∧ changed = .infeasible := by
  cases base <;> cases changed <;> decide

theorem ofStatuses_eq_becameFeasible_iff :
    ofStatuses base changed = .becameFeasible ↔ base = .infeasible ∧ changed = .optimal := by
  cases base <;> cases changed <;> decide

end Outcome

namespace Shift

/-- One quantity in both optima. -/
def between (name : String) (base changed : α) : Shift α where
  name
  base
  changed
  delta := changed - base

end Shift

namespace Comparison

/-- How every quantity moves from one solution to the other. -/
def shiftsBetween (base changed : Solution α) : List (Shift α) :=
  List.zipWith (fun (name, before) after => .between name before after) base.namedValues
    changed.values

/-- The change of the objective from one solution to the other. -/
def objectiveChange? (base changed : Solution α) : Option α := do
  let before ← base.objective
  let after ← changed.objective
  return after - before

/-- The change of the objective in percent of the first solution, unless that is zero. -/
def percentChange? (base changed : Solution α) : Option α := do
  let before ← base.objective
  let delta ← objectiveChange? base changed
  if machineEpsilon < Scalar.abs before then return delta / Scalar.abs before * 100.0 else none

/-- **The comparison of two solutions.** -/
def ofSolutions (base changed : Solution α) : Comparison α :=
  let outcome := Outcome.ofStatuses base.status changed.status
  if outcome = .compared then
    { base, changed, outcome
      shifts := shiftsBetween base changed
      objectiveDelta := objectiveChange? base changed
      objectivePercent := percentChange? base changed }
  else
    { base, changed, outcome, shifts := [], objectiveDelta := none, objectivePercent := none }

end Comparison

/-- **Two programs compared**, if they have the same shape. -/
def compare (s : SolverSettings α) (base other : Program α) :
    Except (Flaw α) (Comparison α) :=
  match base.mismatch? other with
  | some flaw => .error flaw
  | none => .ok (.ofSolutions (Simplex.solve s base) (Simplex.solve s other))

/-- **What changes would do** to the optimum of a program. -/
def whatIf (s : SolverSettings α) (base : Program α) (changes : List (Change α)) :
    Except (Flaw α) (Comparison α) := do
  let other ← base.changed changes
  compare s base other

/-- The program solved with another limit of one constraint. -/
def sweepPoint (s : SolverSettings α) (base : Program α) (label : String) (limit : α) :
    Except (Flaw α) (SweepPoint α) := do
  let q ← base.changed [.limit label limit]
  let solution := Simplex.solve s q
  return { limit, status := solution.status, objective := solution.objective
           values := solution.values }

/-- **A sweep**: the program solved once for each limit of one constraint. -/
def sweep (s : SolverSettings α) (base : Program α) (label : String) (limits : List α) :
    Except (Flaw α) (List (SweepPoint α)) :=
  limits.mapM (sweepPoint s base label)

end Allotment
