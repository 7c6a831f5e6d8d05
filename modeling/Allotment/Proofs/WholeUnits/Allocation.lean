import Allotment.Proofs.PriceSystem
import Allotment.Proofs.WholeUnits.Neighbourhood
import Allotment.Proofs.WholeUnits.Units

/-!
# Whole-unit allocations are sound

An allocation comes either from the rounded point or from the best of the points around it, and each
of these has passed the test of feasibility. So its units are allowed and near the rounded ones, its
constraints hold up to the tolerance, and its objective is that of its point; the prices of the
continuous optimum then say how little the gap can be below zero.
-/

namespace Allotment.WholeUnits
set_option autoImplicit false

/-! ## The units -/

/-- The point that units stand for. -/
def pointOf (units : List Int64) : List ℚ := units.map Scalar.ofUnits

/-- **Units that suit a variable** whose continuous quantity is given: allowed by its bounds, not
negative, and no further than a radius from the rounded quantity. -/
structure Suits (radius : ℕ) (vq : Variable ℚ × ℚ) (n : Int64) : Prop where
  allowed : vq.1.AllowsUnits n.toInt
  nonneg : 0 ≤ n.toInt
  near : |n.toInt - vq.1.nearestUnits vq.2| ≤ radius

theorem nonneg_of_allowsUnits {v : Variable ℚ} (proper : v.Proper) {n : ℤ} (allows : v.AllowsUnits n) :
    0 ≤ n :=
  (Int.ceil_nonneg (not_lt.mp proper.nonneg)).trans allows.1

/-- What is asked of variables and quantities for rounding them: proper bounds of moderate size with a
whole number between them, and quantities of moderate size. -/
structure Roundable (vq : Variable ℚ × ℚ) : Prop where
  proper : vq.1.Proper
  bounds : vq.1.ModerateBounds
  units : vq.1.HasUnits
  quantity : Moderate vq.2

namespace Roundable

variable {vq : Variable ℚ × ℚ} (roundable : Roundable vq)
include roundable

theorem suits_clamp (radius : ℕ) :
    Suits radius vq ((UnitRange.ofVariable vq.1).clamp (Scalar.round vq.2)) := by
  have nearest := UnitRange.toInt_clamp roundable.bounds roundable.quantity
  have allowed := roundable.units.allows_nearestUnits vq.2
  refine ⟨?_, ?_, ?_⟩
  · rwa [nearest]
  · rw [nearest]
    exact nonneg_of_allowsUnits roundable.proper allowed
  · rw [nearest, sub_self, abs_zero]
    exact Int.natCast_nonneg radius

/-- The side around a rounded quantity is not empty, and its numbers suit the variable. -/
theorem suits_around (radius : UInt32) :
    let side := (UnitRange.ofVariable vq.1).around
      ((UnitRange.ofVariable vq.1).clamp (Scalar.round vq.2)) (Int64.ofNat radius.toNat)
    side.low ≤ side.high ∧ ∀ n, side.low ≤ n → n ≤ side.high → Suits radius.toNat vq n := by
  have nearest := UnitRange.toInt_clamp roundable.bounds roundable.quantity
  have distance := toInt_radius radius
  have short := radius.toNat_lt
  obtain ⟨ordered, inside⟩ := UnitRange.around_spec roundable.bounds
    ((UnitRange.ofVariable vq.1).clamp (Scalar.round vq.2)) (Int64.ofNat radius.toNat)
    (nearest ▸ roundable.units.allows_nearestUnits vq.2)
    (nearest ▸ UnitRange.abs_nearestUnits_le roundable.bounds roundable.quantity)
    (by omega) (by omega)
  refine ⟨ordered, fun n ge le => ?_⟩
  obtain ⟨allowed, near⟩ := inside n ge le
  rw [nearest, distance] at near
  exact ⟨allowed, nonneg_of_allowsUnits roundable.proper allowed, near⟩

end Roundable

section Points

variable {p : Program ℚ} {values : List ℚ}
  (roundable : ∀ vq ∈ p.vars.zip values, Roundable vq)
include roundable

theorem suits_roundedPoint (radius : ℕ) :
    List.Forall₂ (Suits radius) (p.vars.zip values) (Rounder.roundedPoint p values) := by
  rw [roundedPoint_eq, List.forall₂_map_right_iff, List.forall₂_same]
  exact fun vq mem => (roundable vq mem).suits_clamp radius

/-- **Every point around the rounded one that is examined suits the variables.** -/
theorem suits_of_mem_pointsFrom {r : Rounder ℚ} {cap : ℕ} {units : List Int64}
    (mem : units ∈ (r.neighbourhood p (Rounder.roundedPoint p values)).pointsFrom cap
      (r.neighbourhood p (Rounder.roundedPoint p values)).corner) :
    List.Forall₂ (Suits r.radius.toNat) (p.vars.zip values) units := by
  have ordered : ∀ side ∈ r.neighbourhood p (Rounder.roundedPoint p values), side.low ≤ side.high := by
    rw [neighbourhood_roundedPoint, List.forall_mem_map]
    exact fun vq mem => ((roundable vq mem).suits_around r.radius).1
  have inside := (Box.inside_corner ordered).forall_pointsFrom cap units mem
  rw [neighbourhood_roundedPoint, Box.Inside, List.forall₂_map_left_iff] at inside
  refine ((List.forall₂_and_left _ _).mpr ⟨roundable, inside⟩).imp ?_
  rintro vq n ⟨can, low, high⟩
  exact (can.suits_around r.radius).2 n low high

omit roundable in
/-- Points that suit the variables are within their bounds. -/
theorem within_of_suits (length : values.length = p.vars.length) {radius : ℕ} {units : List Int64}
    (suits : List.Forall₂ (Suits radius) (p.vars.zip values) units) : p.Within (pointOf units) := by
  have admitted : List.Forall₂ (fun (vq : Variable ℚ × ℚ) (n : Int64) => vq.1.Admits (Scalar.ofUnits n))
      (p.vars.zip values) units := suits.imp fun vq n suit => suit.allowed.admits
  have vars : (p.vars.zip values).map Prod.fst = p.vars := List.map_fst_zip length.ge
  rw [Program.Within, pointOf, List.forall₂_map_right_iff, ← vars, List.forall₂_map_left_iff]
  exact admitted

end Points

/-! ## The search -/

section Search

variable {p : Program ℚ} {tolerance : ℚ} {values : List ℚ}

theorem objectiveAt?_eq_some {units : List Int64} {objective : ℚ} :
    objectiveAt? p tolerance units = some objective ↔
      p.feasible (pointOf units) tolerance = true ∧ p.valueAt (pointOf units) = objective := by
  unfold objectiveAt? pointOf
  simp only
  split
  · next feasible => simp [feasible]
  · next infeasible => simp [infeasible]

/-- **What an examination leaves behind** was there before, or is the point examined with its own
objective. -/
theorem examine_eq_some {best : Option (Best ℚ)} {units : List Int64} {b : Best ℚ}
    (h : Best.examine p tolerance values best units = some b) :
    best = some b ∨ b.units = units ∧ objectiveAt? p tolerance units = some b.objective := by
  unfold Best.examine at h
  cases objective : objectiveAt? p tolerance units with
  | none =>
    rw [objective] at h
    exact .inl h
  | some value =>
    rw [objective] at h
    cases best with
    | none =>
      obtain rfl := Option.some.inj h
      exact .inr ⟨rfl, rfl⟩
    | some old =>
      simp only at h
      split at h
      · obtain rfl := Option.some.inj h
        exact .inr ⟨rfl, rfl⟩
      · exact .inl h

theorem foldl_examine_eq_some {points : List (List Int64)} {best : Option (Best ℚ)} {b : Best ℚ}
    (h : points.foldl (Best.examine p tolerance values) best = some b) :
    best = some b ∨ b.units ∈ points ∧ objectiveAt? p tolerance b.units = some b.objective := by
  induction points generalizing best with
  | nil => exact .inl h
  | cons units points ih =>
    obtain earlier | ⟨mem, objective⟩ := ih h
    · obtain before | ⟨rfl, objective⟩ := examine_eq_some earlier
      · exact .inl before
      · exact .inr ⟨List.mem_cons_self, objective⟩
    · exact .inr ⟨List.mem_cons_of_mem _ mem, objective⟩

/-- **What the search finds** is among the points around, and has passed the test. -/
theorem search_eq_some {r : Rounder ℚ} {units : List Int64} {b : Best ℚ}
    (h : (r.search p values units).result = some b) :
    b.units ∈ (r.neighbourhood p units).pointsFrom r.cap (r.neighbourhood p units).corner ∧
      objectiveAt? p r.tolerance b.units = some b.objective := by
  rw [Rounder.search, Box.walk, Box.walkFrom_result] at h
  exact (foldl_examine_eq_some h).resolve_left (Option.some_ne_none b).symm

end Search

/-! ## The allocation -/

/-- **A sound allocation** for a continuous solution: its units suit the variables, its constraints
hold up to the tolerance of the rounder, its objective is that of its point, and its gap is what the
continuous objective is ahead, which the tolerance and the dual values keep from falling far below
zero. -/
structure Allocation.Sound (a : Allocation ℚ) (r : Rounder ℚ) (p : Program ℚ) (s : Solution ℚ) : Prop where
  length : a.units.length = p.vars.length
  suits : List.Forall₂ (Suits r.radius.toNat) (p.vars.zip s.values) a.units
  allowed : ∀ c ∈ p.constraints, c.relation.Allows r.tolerance (c.limit - c.consumed (pointOf a.units))
  objective : a.objective = some (p.valueAt (pointOf a.units))
  gap : ∃ continuous, s.objective = some continuous ∧
    a.gap = some (p.objective.sense.sign * (continuous - p.valueAt (pointOf a.units))) ∧
    -(r.tolerance * (s.duals.map fun dual => |dual|).sum) ≤
      p.objective.sense.sign * (continuous - p.valueAt (pointOf a.units))

section Allocate

variable {r : Rounder ℚ} {p : Program ℚ} {s : Solution ℚ}

/-- **An allocation is absent, or it is found** at a point that suits the variables and has passed the
test of feasibility. -/
theorem allocate_cases {continuous : ℚ} (optimum : s.optimum? p.vars.length = some continuous)
    (proper : ∀ v ∈ p.vars, v.Proper) (bounds : ∀ v ∈ p.vars, v.ModerateBounds)
    (quantities : ∀ q ∈ s.values, Moderate q) :
    (∃ examined truncated,
      r.allocate p s = .absent p .exhausted (some continuous) examined truncated) ∨
    ∃ ending units objective examined truncated, (ending = .rounded ∨ ending = .searched) ∧
      r.allocate p s = .found p ending units objective continuous examined truncated ∧
      List.Forall₂ (Suits r.radius.toNat) (p.vars.zip s.values) units ∧
      objectiveAt? p r.tolerance units = some objective := by
  unfold Rounder.allocate
  rw [optimum]
  simp only
  by_cases empty : (Rounder.ranges p).any (·.isEmpty) = true
  · rw [if_pos empty]
    exact .inl ⟨_, _, rfl⟩
  have roundable : ∀ vq ∈ p.vars.zip s.values, Roundable vq := by
    intro vq mem
    obtain ⟨hv, hq⟩ := List.of_mem_zip (a := vq.1) (b := vq.2) mem
    have range : (UnitRange.ofVariable vq.1).isEmpty = false := by
      rw [Bool.not_eq_true, List.any_eq_false] at empty
      simpa using empty _ (List.mem_map_of_mem hv)
    exact ⟨proper _ hv, bounds _ hv, (UnitRange.isEmpty_eq_false_iff (bounds _ hv)).mp range, quantities _ hq⟩
  rw [if_neg empty]
  cases rounded : objectiveAt? p r.tolerance (Rounder.roundedPoint p s.values) with
  | some objective =>
    exact .inr ⟨_, _, _, _, _, .inl rfl, rfl, suits_roundedPoint roundable _, rounded⟩
  | none =>
    cases found : (r.search p s.values (Rounder.roundedPoint p s.values)).result with
    | none => exact .inl ⟨_, _, rfl⟩
    | some best =>
      obtain ⟨mem, objective⟩ := search_eq_some found
      exact .inr ⟨_, _, _, _, _, .inr rfl, rfl, suits_of_mem_pointsFrom roundable mem, objective⟩

end Allocate

open Simplex in
/-- **Allocations in whole units are sound**, for every valid program, every rounder with a tolerance
that is not negative and the continuous optimum of a solver without tolerances, as long as bounds and
quantities are of moderate size and none is taken for dust. Feasibility, the two endings that find
units and the presence of units go together, and without a tolerance no gap is negative. -/
theorem allocation_sound (r : Rounder ℚ) (tolerant : 0 ≤ r.tolerance) (s : SolverSettings ℚ) (p : Program ℚ)
    (valid : p.flaw? = none) (sharp : s.pivotTolerance = 0) (binding : s.bindingTolerance = 0)
    (optimal : (solve s p).status = .optimal)
    (dustless : ∀ run ∈ finalRun? s p, (StandardForm.ofProgram p).Dustless run.tableau)
    (bounds : ∀ v ∈ p.vars, v.ModerateBounds) (quantities : ∀ q ∈ (solve s p).values, Moderate q) :
    ((r.allocate p (solve s p)).feasible = true ↔
      (r.allocate p (solve s p)).ending = .rounded ∨ (r.allocate p (solve s p)).ending = .searched) ∧
    ((r.allocate p (solve s p)).feasible = true ↔ (r.allocate p (solve s p)).units ≠ []) ∧
    ((r.allocate p (solve s p)).feasible = true → (r.allocate p (solve s p)).Sound r p (solve s p)) ∧
    (r.tolerance = 0 → ∀ gap ∈ (r.allocate p (solve s p)).gap, 0 ≤ gap) := by
  have h := p.flaw?_eq_none_iff.mp valid
  obtain ⟨feasible, objective, priced, -⟩ := exists_priced_optimum h sharp binding optimal dustless
  have length : (solve s p).values.length = p.vars.length := feasible.within.length_eq.symm
  have optimum := (optimum?_eq optimal length).trans objective
  obtain ⟨examined, truncated, absent⟩ | ⟨ending, units, value, examined, truncated, ends, found, suits, tested⟩ :=
    allocate_cases (r := r) optimum h.bounds bounds quantities
  · rw [absent]
    simp [Allocation.absent]
  · obtain ⟨passes, rfl⟩ := objectiveAt?_eq_some.mp tested
    have allowed : ∀ c ∈ p.constraints,
        c.relation.Allows r.tolerance (c.limit - c.consumed (pointOf units)) := fun c hc =>
      (c.satisfied_iff _ _).mp (((p.feasible_iff _ _).mp passes).2 c hc)
    have ahead := priced.improvement_le_of_allows (within_of_suits length suits) tolerant allowed
    have count : units.length = p.vars.length := by
      rw [← suits.length_eq, List.length_zip, length, min_self]
    have gap : -(r.tolerance * ((solve s p).duals.map fun dual => |dual|).sum) ≤
        p.objective.sense.sign * (p.valueAt (solve s p).values - p.valueAt (pointOf units)) := by
      unfold Sense.improvement at ahead
      linarith
    rw [found]
    refine ⟨by simp [Allocation.found, ends], ?_, fun _ => ⟨count, suits, allowed, rfl, _, objective, rfl, gap⟩, ?_⟩
    · have some : units ≠ [] := fun none => h.nonempty (List.eq_nil_of_length_eq_zero (by rw [← count, none]; rfl))
      simp [Allocation.found, some]
    · intro zero lost mem
      obtain rfl := Option.some.inj mem
      rw [zero, zero_mul, neg_zero] at gap
      exact gap

open Simplex in
/-- In the sample the rounded point misses a constraint, and the search finds another one. -/
theorem allocation_sound_sample :
    ((Program.sample.flaw? = none ∧ (solve ⟨100, 0, 0⟩ Program.sample).status = .optimal ∧
        (∀ run ∈ finalRun? ⟨100, 0, 0⟩ Program.sample,
          (StandardForm.ofProgram Program.sample).Dustless run.tableau) ∧
        (∀ v ∈ Program.sample.vars, v.ModerateBounds) ∧
        ∀ q ∈ (solve ⟨100, 0, 0⟩ Program.sample).values, Moderate q) ∧
      (Rounder.allocate ⟨2, 100, 0⟩ Program.sample (solve ⟨100, 0, 0⟩ Program.sample)).ending = .searched) ∧
    (Rounder.allocate ⟨2, 100, 0⟩ Program.sample (solve ⟨100, 0, 0⟩ Program.sample)).Sound ⟨2, 100, 0⟩
      Program.sample (solve ⟨100, 0, 0⟩ Program.sample) := by
  have optimal : (solve ⟨100, 0, 0⟩ Program.sample).status = .optimal := by decide +kernel
  have dustless : ∀ run ∈ finalRun? ⟨100, 0, 0⟩ Program.sample,
      (StandardForm.ofProgram Program.sample).Dustless run.tableau := by decide +kernel
  have bounds : ∀ v ∈ Program.sample.vars, v.ModerateBounds := by decide +kernel
  have quantities : ∀ q ∈ (solve ⟨100, 0, 0⟩ Program.sample).values, Moderate q := by decide +kernel
  have searched : (Rounder.allocate ⟨2, 100, 0⟩ Program.sample
      (solve ⟨100, 0, 0⟩ Program.sample)).ending = .searched := by decide +kernel
  obtain ⟨ends, -, sound, -⟩ := allocation_sound ⟨2, 100, 0⟩ le_rfl ⟨100, 0, 0⟩ Program.sample
    Program.flaw?_sample rfl rfl optimal dustless bounds quantities
  exact ⟨⟨⟨Program.flaw?_sample, optimal, dustless, bounds, quantities⟩, searched⟩,
    sound (ends.mpr (.inr searched))⟩

end Allotment.WholeUnits
