import Allotment.Proofs.Rational
import Allotment.Proofs.WellFormed

/-!
# The feasible region

`Program.Feasible` says over the exact rationals which points a program allows: one quantity per
variable, each within its bounds, and every constraint satisfied. It is what the test
`Program.feasible` decides at tolerance zero (`feasible_zero_iff`). `Program.Beats` compares two
points by the objective in the sense of the program.
-/

namespace Allotment
set_option autoImplicit false

/-- The relation between two numbers. -/
def Relation.Holds (relation : Relation) (a b : ℚ) : Prop :=
  match relation with
  | .atMost => a ≤ b
  | .atLeast => b ≤ a
  | .equal => a = b

theorem Relation.holds_flip_neg (relation : Relation) (a b : ℚ) :
    relation.flip.Holds (-a) (-b) ↔ relation.Holds a b := by
  cases relation with
  | atMost => exact neg_le_neg_iff
  | atLeast => exact neg_le_neg_iff
  | equal => exact neg_inj

/-- What the right side may exceed the left side by, up to a tolerance. -/
def Relation.Allows (relation : Relation) (tolerance remainder : ℚ) : Prop :=
  match relation with
  | .atMost => -tolerance ≤ remainder
  | .atLeast => remainder ≤ tolerance
  | .equal => |remainder| ≤ tolerance

theorem Relation.allows_flip_neg (relation : Relation) (tolerance remainder : ℚ) :
    relation.flip.Allows tolerance (-remainder) ↔ relation.Allows tolerance remainder := by
  cases relation with
  | atMost => exact neg_le
  | atLeast => exact neg_le_neg_iff
  | equal => rw [flip, Allows, Allows, abs_neg]

/-- A point satisfies a constraint exactly. -/
def Constraint.Holds (c : Constraint ℚ) (x : List ℚ) : Prop := c.relation.Holds (c.consumed x) c.limit

/-- A quantity is within the bounds of a variable. -/
def Variable.Admits (v : Variable ℚ) (q : ℚ) : Prop := v.lower ≤ q ∧ ∀ u ∈ v.upper, q ≤ u

namespace Program

/-- A point has one quantity per variable, each within its bounds. -/
def Within (p : Program ℚ) (x : List ℚ) : Prop := List.Forall₂ Variable.Admits p.vars x

/-- **The feasible region**: the points within the bounds that satisfy every constraint. -/
structure Feasible (p : Program ℚ) (x : List ℚ) : Prop where
  within : p.Within x
  holds : ∀ c ∈ p.constraints, c.Holds x

/-- A point has a better objective than another, in the sense of the program. -/
def Beats (p : Program ℚ) (x y : List ℚ) : Prop :=
  0 < p.objective.sense.improvement (p.valueAt x) (p.valueAt y)

end Program

/-! ## The test decides the region -/

/-- A constraint is satisfied up to a tolerance when it allows what its limit leaves. -/
theorem Constraint.satisfied_iff (c : Constraint ℚ) (x : List ℚ) (tolerance : ℚ) :
    c.satisfied x tolerance = true ↔ c.relation.Allows tolerance (c.limit - c.consumed x) := by
  rw [satisfied, slack]
  cases c.relation with
  | atMost => simp only [Relation.Allows, decide_eq_true_eq]
  | atLeast =>
    simp only [Relation.Allows, decide_eq_true_eq]
    rw [neg_le, neg_sub]
  | equal => simp only [Relation.Allows, decide_eq_true_eq, Scalar.abs_rat]

theorem Relation.allows_zero_iff (relation : Relation) (a b : ℚ) :
    relation.Allows 0 (b - a) ↔ relation.Holds a b := by
  cases relation with
  | atMost => simp [Allows, Holds]
  | atLeast => simp [Allows, Holds]
  | equal => rw [Allows, Holds, abs_nonpos_iff, sub_eq_zero, eq_comm]

theorem Constraint.satisfied_zero_iff (c : Constraint ℚ) (x : List ℚ) :
    c.satisfied x 0 = true ↔ c.Holds x := by
  rw [satisfied_iff, Relation.allows_zero_iff, Holds]

theorem Variable.admits_iff (v : Variable ℚ) (q tolerance : ℚ) : v.admits q tolerance = true ↔
    v.lower - tolerance ≤ q ∧ ∀ u ∈ v.upper, q ≤ u + tolerance := by
  unfold admits
  cases upper : v.upper <;> simp

theorem Variable.admits_zero_iff (v : Variable ℚ) (q : ℚ) : v.admits q 0 = true ↔ v.Admits q := by
  rw [admits_iff, Admits, sub_zero]
  simp only [add_zero]

/-- One quantity per variable, each passing a test, as a relation between the two lists. -/
theorem all_zipWith_iff {test : Variable ℚ → ℚ → Bool} {vs : List (Variable ℚ)} {x : List ℚ} :
    (x.length == vs.length && (List.zipWith test vs x).all id) = true ↔
      List.Forall₂ (fun v q => test v q = true) vs x := by
  induction vs generalizing x with
  | nil => cases x <;> simp
  | cons v vs ih =>
    cases x with
    | nil => simp
    | cons q x =>
      rw [List.forall₂_cons, ← ih]
      simp only [List.length_cons, List.zipWith_cons_cons, List.all_cons, id, Bool.and_eq_true,
        beq_iff_eq, add_left_inj]
      tauto

namespace Program

/-- The test of feasibility, for any tolerance. -/
theorem feasible_iff (p : Program ℚ) (x : List ℚ) (tolerance : ℚ) : p.feasible x tolerance = true ↔
    List.Forall₂ (fun v q => v.admits q tolerance = true) p.vars x ∧
      ∀ c ∈ p.constraints, c.satisfied x tolerance = true := by
  rw [feasible, Bool.and_eq_true, all_zipWith_iff, List.all_eq_true]

/-- **At tolerance zero the test decides the feasible region.** -/
theorem feasible_zero_iff (p : Program ℚ) (x : List ℚ) : p.feasible x 0 = true ↔ p.Feasible x := by
  rw [feasible_iff]
  simp only [Variable.admits_zero_iff, Constraint.satisfied_zero_iff]
  exact ⟨fun h => ⟨h.1, h.2⟩, fun h => ⟨h.within, h.holds⟩⟩

/-! ## Well-formed programs over the rationals -/

namespace WellFormed

variable {p : Program ℚ} (h : p.WellFormed)
include h

theorem lower_le {v : Variable ℚ} (hv : v ∈ p.vars) {u : ℚ} (hu : u ∈ v.upper) : v.lower ≤ u :=
  not_lt.mp ((h.bounds v hv).upper u hu).2

theorem row_length {c : Constraint ℚ} (hc : c ∈ p.constraints) :
    c.coefficients.length = p.vars.length := (h.rows c hc).length

end WellFormed

/-- A program with every kind of row: a maximum, a minimum with a negative limit, an equality, and
bounds on both sides of a variable. -/
def sample : Program ℚ where
  vars := [⟨"x", 1, some 3⟩, ⟨"y", 0, none⟩]
  objective := ⟨.maximize, [3, 2]⟩
  constraints := [⟨"together", [1, 1], .atMost, 4⟩, ⟨"gap", [1, -1], .atLeast, -1⟩, ⟨"mix", [2, 1], .equal, 5⟩]

theorem flaw?_sample : sample.flaw? = none := by decide

end Program

end Allotment
