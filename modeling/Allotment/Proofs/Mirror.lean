import Allotment.Pricing
import Allotment.Proofs.Binary64
import Allotment.Simplex.TwoPhase
import Allotment.WholeUnits.Allocation

/-!
# Minimizing mirrors maximizing

The mirror image of a program strives for the opposite: its sense is flipped and every coefficient of
its objective negated. Where negation is exact, both have one and the same standard form, so they are
solved pivot by pivot alike, and all that is computed from the last tableau, from relaxed programs and
from whole-unit points differs by the sign of what is measured in the objective. `mirrored_mirrors`
says so of the solution, of the prices under either method and of the whole-unit allocation.
-/

namespace Allotment
set_option autoImplicit false

variable {α : Type} [Scalar α]

/-! ## Opposite numbers -/

/-- The one number is the other negated, where the sign of zero does not count. -/
def Opposite (a b : α) : Prop := Same a (-b)

theorem rel_cases {β γ : Type} {R : β → γ → Prop} {a : Option β} {b : Option γ}
    (h : Option.Rel R a b) : a = none ∧ b = none ∨ ∃ x y, a = some x ∧ b = some y ∧ R x y := by
  cases h with
  | none => exact Or.inl ⟨rfl, rfl⟩
  | some h => exact Or.inr ⟨_, _, rfl, rfl, h⟩

/-- The other sense. -/
def Sense.flip : Sense → Sense
  | maximize => minimize
  | minimize => maximize

/-- **The mirror image of a program.** -/
def Program.mirrored (p : Program α) : Program α :=
  { p with
    objective :=
      { sense := p.objective.sense.flip, coefficients := p.objective.coefficients.map (-·) } }

theorem opposite_neg (a : α) : Opposite (-a) a := .inl rfl

section Laws

variable [ExactNegation α] {a a' b b' : α}

theorem opposite_zero : Opposite (0 : α) 0 := ExactNegation.symm ExactNegation.neg_zero

theorem Opposite.abs (h : Opposite a b) : Scalar.abs a = Scalar.abs b :=
  (ExactNegation.abs_congr h).trans (ExactNegation.abs_neg b)

theorem Opposite.sub (h : Opposite a a') (h' : Opposite b b') : Opposite (a - b) (a' - b') :=
  ExactNegation.trans (ExactNegation.sub_left h b) <|
    ExactNegation.trans (ExactNegation.sub_right h' (-a')) (ExactNegation.neg_sub a' b')

theorem Opposite.div (h : Opposite a b) (c : α) : Opposite (a / c) (b / c) := by
  have same := ExactNegation.div_left h c
  rwa [ExactNegation.neg_div] at same

theorem Sense.sign_flip (sense : Sense) : (sense.flip.sign : α) = -sense.sign := by
  cases sense with
  | maximize => rfl
  | minimize => exact (ExactNegation.neg_neg 1).symm

/-- **What is better stays as much better.** -/
theorem Opposite.improvement (h : Opposite a a') (h' : Opposite b b') (sense : Sense) :
    Same (sense.flip.improvement a b) (sense.improvement a' b') := by
  have same := ExactNegation.mul_right (h.sub h') (-sense.sign)
  rw [ExactNegation.neg_mul, ExactNegation.neg_mul, ExactNegation.mul_neg,
    ExactNegation.neg_neg] at same
  rwa [Sense.improvement, Sense.sign_flip, ExactNegation.neg_mul]

/-- The negated terms of a sum add up to its opposite. -/
theorem opposite_foldl {start start' : α} (h : Opposite start start') (terms : List α) :
    Opposite ((terms.map (-·)).foldl (· + ·) start) (terms.foldl (· + ·) start') := by
  induction terms generalizing start start' with
  | nil => exact h
  | cons t terms ih =>
    refine ih (ExactNegation.trans (ExactNegation.add_left h (-t)) ?_)
    exact ExactNegation.neg_add start' t

theorem opposite_dot (row point : List α) : Opposite (dot (row.map (-·)) point) (dot row point) := by
  have terms : List.zipWith (· * ·) (row.map (-·)) point =
      (List.zipWith (· * ·) row point).map (-·) := by
    rw [List.zipWith_map_left, List.map_zipWith]
    simp only [ExactNegation.neg_mul]
  have start : Opposite (-0 : α) (-0) := by
    rw [Opposite, ExactNegation.neg_neg]
    exact ExactNegation.neg_zero
  rw [dot, terms]
  exact opposite_foldl start _

end Laws

/-! ## Solutions -/

/-- **Mirrored solutions** differ by the sign of what is measured in the objective. -/
structure Solution.Mirrors (a b : Solution α) : Prop where
  status : a.status = b.status
  names : a.names = b.names
  values : a.values = b.values
  usage : a.usage = b.usage
  violations : a.violations = b.violations
  pivots : a.pivots = b.pivots
  basic : a.basic = b.basic
  objective : Option.Rel Opposite a.objective b.objective
  duals : List.Forall₂ Opposite a.duals b.duals
  reducedCosts : List.Forall₂ Opposite a.reducedCosts b.reducedCosts

/-- Without a point there is nothing to mirror. -/
theorem Solution.withoutPoint_mirrors (p : Program α) (status : Status)
    (violations : List (Violation α)) (pivots : ℕ) :
    (withoutPoint p.mirrored status violations pivots).Mirrors
      (withoutPoint p status violations pivots) :=
  ⟨rfl, rfl, rfl, rfl, rfl, rfl, rfl, .none, .nil, .nil⟩

section Solve

open Simplex

variable [ExactNegation α] (p : Program α) (s : SolverSettings α)

theorem Program.valueAt_mirrored (point : List α) :
    Opposite (p.mirrored.valueAt point) (p.valueAt point) := opposite_dot _ _

/-- **A program and its mirror image have the same standard form.** -/
theorem Program.ofProgram_mirrored :
    StandardForm.ofProgram p.mirrored = StandardForm.ofProgram p := by
  have gains : p.mirrored.objective.coefficients.map (p.mirrored.objective.sense.sign * ·) =
      p.objective.coefficients.map (p.objective.sense.sign * ·) := by
    simp only [mirrored, Sense.sign_flip, List.map_map]
    refine List.map_congr_left fun a _ => ?_
    rw [Function.comp_apply, ExactNegation.mul_neg, ExactNegation.neg_mul, ExactNegation.neg_neg]
  rw [StandardForm.ofProgram, gains]
  rfl

theorem duals_mirrored (f : StandardForm α) (t : Tableau α) :
    f.duals p.mirrored t = (f.duals p t).map (-·) := by
  simp only [StandardForm.duals, List.map_zipWith, Program.mirrored, Sense.sign_flip,
    ExactNegation.neg_mul]

theorem reducedCosts_mirrored (f : StandardForm α) (t : Tableau α) :
    List.Forall₂ Opposite (f.reducedCosts p.mirrored t) (f.reducedCosts p t) := by
  rw [StandardForm.reducedCosts, StandardForm.reducedCosts, List.forall₂_map_left_iff,
    List.forall₂_map_right_iff, List.forall₂_same]
  rintro ⟨basic, j⟩ -
  cases basic with
  | true => exact opposite_zero
  | false =>
    simp only [Program.mirrored, Sense.sign_flip, ExactNegation.neg_mul]
    exact opposite_neg _

theorem solution_mirrored (f : StandardForm α) (t : Tableau α) (pivots : ℕ) :
    (f.solution p.mirrored s t pivots).Mirrors (f.solution p s t pivots) where
  status := rfl
  names := rfl
  values := rfl
  usage := rfl
  violations := rfl
  pivots := rfl
  basic := rfl
  objective := .some (p.valueAt_mirrored _)
  duals := by
    have duals := duals_mirrored p f t
    change List.Forall₂ Opposite (f.duals p.mirrored t) (f.duals p t)
    rw [duals, List.forall₂_map_left_iff, List.forall₂_same]
    exact fun a _ => opposite_neg a
  reducedCosts := reducedCosts_mirrored p f t

/-- **The solutions mirror each other.** -/
theorem solve_mirrored : (solve s p.mirrored).Mirrors (solve s p) := by
  rw [solve, solve, p.ofProgram_mirrored]
  cases (StandardForm.ofProgram p).start s with
  | limit pivots => exact Solution.withoutPoint_mirrors ..
  | infeasible t pivots => exact Solution.withoutPoint_mirrors ..
  | feasible t pivots =>
    cases stop : ((StandardForm.ofProgram p).secondPhase s t pivots).stop with
    | limit => simp only [stop]; exact Solution.withoutPoint_mirrors ..
    | unbounded => simp only [stop]; exact Solution.withoutPoint_mirrors ..
    | optimal => simp only [stop]; exact solution_mirrored ..

end Solve

/-! ## Prices -/

/-- Mirrored prices of one constraint. -/
structure ConstraintPrice.Mirrors (a b : ConstraintPrice α) : Prop where
  label : a.label = b.label
  relation : a.relation = b.relation
  limit : a.limit = b.limit
  consumed : a.consumed = b.consumed
  slack : a.slack = b.slack
  binding : a.binding = b.binding
  price : Opposite a.price b.price

/-- Mirrored reduced costs of one variable. -/
structure ReducedCost.Mirrors (a b : ReducedCost α) : Prop where
  name : a.name = b.name
  value : a.value = b.value
  basic : a.basic = b.basic
  cost : Opposite a.cost b.cost

/-- **Mirrored prices**, constraint by constraint and variable by variable. -/
structure PriceTable.Mirrors (a b : PriceTable α) : Prop where
  constraints : List.Forall₂ ConstraintPrice.Mirrors a.constraints b.constraints
  reducedCosts : List.Forall₂ ReducedCost.Mirrors a.reducedCosts b.reducedCosts

/-- The entries of mirrored lists are opposite, past their ends too. -/
theorem opposite_getD [ExactNegation α] {as bs : List α} (h : List.Forall₂ Opposite as bs) (i : ℕ) :
    Opposite (as.getD i 0) (bs.getD i 0) := by
  induction h generalizing i with
  | nil => exact opposite_zero
  | cons first _ ih =>
    cases i with
    | zero => exact first
    | succ i => exact ih i

namespace Solution.Mirrors

variable {a b : Solution α} (h : a.Mirrors b)
include h

theorem optimum? (count : ℕ) : Option.Rel Opposite (a.optimum? count) (b.optimum? count) := by
  unfold Solution.optimum? isOptimal
  rw [h.status, h.values]
  split
  · exact h.objective
  · exact .none

end Solution.Mirrors

section Prices

open Simplex

variable [ExactNegation α] {a b : Solution α} {objective objective' : α}
  (opposite : Opposite objective objective') (p : Program α) (index : ℕ)
include opposite

theorem slope?_mirrored (s : SolverSettings α) (step : α) :
    Option.Rel Opposite (Pricer.slope? s p.mirrored index objective step)
      (Pricer.slope? s p index objective' step) := by
  have relaxed := solve_mirrored (p.relaxed index step) s
  change Option.Rel Opposite
    (if (solve s (p.relaxed index step).mirrored).isOptimal
      then (solve s (p.relaxed index step).mirrored).objective.map fun v => (v - objective) / step
      else none) _
  rw [Pricer.slope?, Solution.isOptimal, Solution.isOptimal, relaxed.status]
  split
  · obtain ⟨none, none'⟩ | ⟨x, y, hx, hy, value⟩ := rel_cases relaxed.objective
    · rw [none, none']
      exact .none
    · rw [hx, hy]
      exact .some ((value.sub opposite).div step)
  · exact .none

theorem bindingPrice_mirrored (h : a.Mirrors b) (r : Pricer α) :
    Opposite (r.bindingPrice p.mirrored a index objective)
      (r.bindingPrice p b index objective') := by
  have dual := opposite_getD h.duals index
  unfold Pricer.bindingPrice
  cases r.method with
  | dual => exact dual
  | finiteDifference step =>
    obtain ⟨none, none'⟩ | ⟨x, y, hx, hy, slope⟩ :=
      rel_cases (slope?_mirrored opposite p index r.solver step)
    · simp only [none, none']
      exact dual
    · simp only [hx, hy]
      exact slope

theorem constraintPrice_mirrored (h : a.Mirrors b) (r : Pricer α) (c : Constraint α) :
    (r.constraintPrice p.mirrored a objective c index).Mirrors
      (r.constraintPrice p b objective' c index) := by
  unfold Pricer.constraintPrice
  rw [h.values]
  refine ⟨rfl, rfl, rfl, rfl, rfl, rfl, ?_⟩
  simp only
  split
  · exact bindingPrice_mirrored opposite p index h r
  · exact opposite_zero

omit opposite in
/-- **The prices mirror each other**, under either method. -/
theorem table_mirrored (h : a.Mirrors b) (r : Pricer α) :
    (r.table p.mirrored a).Mirrors (r.table p b) := by
  unfold Pricer.table
  rw [show p.mirrored.vars = p.vars from rfl]
  obtain ⟨none, none'⟩ | ⟨x, y, hx, hy, opposite⟩ := rel_cases (h.optimum? p.vars.length)
  · rw [none, none']
    exact ⟨.nil, .nil⟩
  · rw [hx, hy]
    constructor
    · simp only
      rw [List.forall₂_map_left_iff, List.forall₂_map_right_iff, show p.mirrored.constraints =
        p.constraints from rfl, List.forall₂_same]
      exact fun c _ => constraintPrice_mirrored opposite p c.2 h r c.1
    · simp only [Pricer.reducedCosts]
      rw [show p.mirrored.vars = p.vars from rfl, h.values, List.forall₂_map_left_iff,
        List.forall₂_map_right_iff, List.forall₂_same, h.basic]
      exact fun v _ => ⟨rfl, rfl, rfl, opposite_getD h.reducedCosts v.2⟩

end Prices

/-! ## Whole units -/

namespace WholeUnits

/-- **Mirrored allocations**: the same units, lost gap for lost gap. -/
structure Allocation.Mirrors (a b : Allocation α) : Prop where
  ending : a.ending = b.ending
  feasible : a.feasible = b.feasible
  names : a.names = b.names
  units : a.units = b.units
  objective : Option.Rel Opposite a.objective b.objective
  continuousObjective : Option.Rel Opposite a.continuousObjective b.continuousObjective
  gap : Option.Rel Same a.gap b.gap
  relativeGap : Option.Rel Same a.relativeGap b.relativeGap
  examined : a.examined = b.examined
  truncated : a.truncated = b.truncated

/-- Mirrored best points. -/
structure Best.Mirrors (a b : Best α) : Prop where
  units : a.units = b.units
  objective : Opposite a.objective b.objective
  distance : a.distance = b.distance

/-- Two walks that visit the same points and keep their results related. -/
theorem Box.walkFrom_rel {σ : Type} {R : σ → σ → Prop} {box : Box} {visit visit' : σ → List Int64 → σ}
    (keeps : ∀ a b x, R a b → R (visit a x) (visit' b x)) (cap visited : ℕ) {a b : σ} (h : R a b)
    (x : List Int64) :
    R (box.walkFrom visit cap visited a x).result (box.walkFrom visit' cap visited b x).result ∧
      (box.walkFrom visit cap visited a x).visited = (box.walkFrom visit' cap visited b x).visited ∧
      (box.walkFrom visit cap visited a x).truncated =
        (box.walkFrom visit' cap visited b x).truncated := by
  induction cap generalizing visited a b x with
  | zero => exact ⟨h, rfl, rfl⟩
  | succ cap ih =>
    unfold Box.walkFrom
    cases box.next? x with
    | none => exact ⟨keeps a b x h, rfl, rfl⟩
    | some y => exact ih (visited + 1) (keeps a b x h) y

variable [ExactNegation α] (p : Program α) (tolerance : α)

theorem objectiveAt?_mirrored (units : List Int64) :
    Option.Rel Opposite (objectiveAt? p.mirrored tolerance units) (objectiveAt? p tolerance units) := by
  simp only [objectiveAt?, show p.mirrored.feasible = p.feasible from rfl]
  split
  · exact .some (p.valueAt_mirrored _)
  · exact .none

theorem Best.Mirrors.beats {c c' best best' : Best α} (h : c.Mirrors c') (h' : best.Mirrors best')
    (sense : Sense) : c.beats sense.flip best = c'.beats sense best' := by
  have gain := h.objective.improvement h'.objective sense
  unfold Best.beats
  simp only [h'.objective.abs, h.distance, h'.distance, ExactNegation.abs_congr gain,
    ExactNegation.lt_right gain]

theorem examine_mirrored (continuous : List α) {best best' : Option (Best α)}
    (h : Option.Rel Best.Mirrors best best') (units : List Int64) :
    Option.Rel Best.Mirrors (Best.examine p.mirrored tolerance continuous best units)
      (Best.examine p tolerance continuous best' units) := by
  unfold Best.examine
  obtain ⟨none, none'⟩ | ⟨x, y, hx, hy, opposite⟩ := rel_cases (objectiveAt?_mirrored p tolerance units)
  · rw [none, none']
    exact h
  · rw [hx, hy]
    cases h with
    | none => exact .some ⟨rfl, opposite, rfl⟩
    | some better =>
      have point : Best.Mirrors { units, objective := x, distance := distance units continuous }
        { units, objective := y, distance := distance units continuous } := ⟨rfl, opposite, rfl⟩
      simp only
      rw [show p.mirrored.objective.sense = p.objective.sense.flip from rfl, point.beats better]
      split
      · exact .some point
      · exact .some better

theorem found_mirrored (ending : Ending) (units : List Int64) {objective objective' continuous
    continuous' : α} (h : Opposite objective objective') (h' : Opposite continuous continuous')
    (examined : ℕ) (truncated : Bool) :
    (Allocation.found p.mirrored ending units objective continuous examined truncated).Mirrors
      (Allocation.found p ending units objective' continuous' examined truncated) := by
  have gap := h'.improvement h p.objective.sense
  refine ⟨rfl, rfl, rfl, rfl, .some h, .some h', .some gap, ?_, rfl, rfl⟩
  unfold Allocation.found
  simp only [h'.abs]
  split
  · exact .some (ExactNegation.div_left gap _)
  · exact .none

omit [ExactNegation α] in
theorem absent_mirrored (ending : Ending) {continuous continuous' : Option α}
    (h : Option.Rel Opposite continuous continuous') (examined : ℕ) (truncated : Bool) :
    (Allocation.absent p.mirrored ending continuous examined truncated).Mirrors
      (Allocation.absent p ending continuous' examined truncated) :=
  ⟨rfl, rfl, rfl, rfl, .none, h, .none, .none, rfl, rfl⟩

theorem search_mirrored (r : Rounder α) (values : List α) (units : List Int64) :
    Option.Rel Best.Mirrors (r.search p.mirrored values units).result
        (r.search p values units).result ∧
      (r.search p.mirrored values units).visited = (r.search p values units).visited ∧
      (r.search p.mirrored values units).truncated = (r.search p values units).truncated :=
  Box.walkFrom_rel (R := Option.Rel Best.Mirrors)
    (fun _ _ units h => examine_mirrored p r.tolerance values h units) r.cap 0 .none _

/-- **The allocations mirror each other.** -/
theorem allocate_mirrored {a b : Solution α} (h : a.Mirrors b) (r : Rounder α) :
    (r.allocate p.mirrored a).Mirrors (r.allocate p b) := by
  unfold Rounder.allocate
  rw [show p.mirrored.vars = p.vars from rfl,
    show Rounder.ranges p.mirrored = Rounder.ranges p from rfl, h.values]
  obtain ⟨none, none'⟩ | ⟨x, y, hx, hy, continuous⟩ := rel_cases (h.optimum? p.vars.length)
  · rw [none, none']
    exact absent_mirrored p _ h.objective _ _
  · rw [hx, hy]
    simp only
    split
    · exact absent_mirrored p _ (.some continuous) _ _
    · rw [show Rounder.roundedPoint p.mirrored = Rounder.roundedPoint p from rfl]
      generalize Rounder.roundedPoint p b.values = units
      obtain ⟨none, none'⟩ | ⟨v, w, hv, hw, objective⟩ :=
        rel_cases (objectiveAt?_mirrored p r.tolerance units)
      · obtain ⟨result, visited, truncated⟩ := search_mirrored p r b.values units
        rw [none, none']
        simp only [visited, truncated]
        obtain ⟨none, none'⟩ | ⟨best, best', hbest, hbest', better⟩ := rel_cases result
        · rw [none, none']
          exact absent_mirrored p _ (.some continuous) _ _
        · rw [hbest, hbest']
          simp only [better.units]
          exact found_mirrored p _ _ better.objective continuous _ _
      · rw [hv, hw]
        exact found_mirrored p _ _ objective continuous _ _

end WholeUnits

open Simplex in
/-- **A program and its mirror image are solved, priced and rounded alike**, up to the sign of what is
measured in the objective, in every number system in which negation is exact. -/
theorem mirrored_mirrors [ExactNegation α] (p : Program α) (s : SolverSettings α) :
    (solve s p.mirrored).Mirrors (solve s p) ∧
      (∀ r : Pricer α, (r.table p.mirrored (solve s p.mirrored)).Mirrors (r.table p (solve s p))) ∧
      ∀ r : WholeUnits.Rounder α,
        (r.allocate p.mirrored (solve s p.mirrored)).Mirrors (r.allocate p (solve s p)) :=
  have mirrors := solve_mirrored p s
  ⟨mirrors, table_mirrored p mirrors, WholeUnits.allocate_mirrored p mirrors⟩

/-- As many hats as five yards of felt are enough for, at two yards and a profit of three each. -/
def hats : Program Float where
  vars := [{ name := "hats", lower := 0, upper := none }]
  objective := { sense := .maximize, coefficients := [3] }
  constraints := [{ label := "felt", coefficients := [2], relation := .atMost, limit := 5 }]

open Simplex in
theorem mirrored_hats : (solve .default hats).status = .optimal ∧
    (solve .default hats.mirrored).Mirrors (solve .default hats) ∧
    (∀ r : Pricer Float,
      (r.table hats.mirrored (solve .default hats.mirrored)).Mirrors (r.table hats (solve .default hats))) ∧
    ∀ r : WholeUnits.Rounder Float,
      (r.allocate hats.mirrored (solve .default hats.mirrored)).Mirrors
        (r.allocate hats (solve .default hats)) :=
  ⟨by decide +kernel, mirrored_mirrors hats .default⟩

end Allotment
