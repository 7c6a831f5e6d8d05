import Allotment.Proofs.Prices
import Allotment.Proofs.Simplex.Congruent

/-!
# Bounds as constraints

Bounds on the variables are not a second kind of restriction. `Program.withExplicitBounds` counts every
quantity from its lower bound and writes every upper bound out as a constraint: its standard form is
that of the program itself, over quantities that are taken as they are (`ofProgram_withExplicitBounds`).
Nothing but the point looks at the lower bounds of a standard form, so both programs are solved by the
same pivots, and what is found for the one is what is found for the other, read above the lower bounds
(`solve_readsAbove`).
-/

namespace Allotment
set_option autoImplicit false

/-! ## The program with its bounds written out -/

namespace Program

variable {α : Type} [Scalar α]

/-- The lower bounds, in the order of the variables. -/
def lowerBounds (p : Program α) : List α := p.vars.map (·.lower)

/-- The variables that are bounded above: where each stands, and how far it may go above its lower
bound. -/
def ranges (p : Program α) : List (ℕ × α) :=
  p.vars.zipIdx.filterMap fun (v, j) => v.upper.map fun upper => (j, upper - v.lower)

/-- A constraint on quantities that are counted from their lower bounds. -/
def shiftedConstraint (p : Program α) (c : Constraint α) : Constraint α :=
  { c with limit := c.limit - dot c.coefficients p.lowerBounds }

/-- The constraint that holds one quantity to at most its range. -/
def rangeConstraint (p : Program α) (label : String) (range : ℕ × α) : Constraint α where
  label
  coefficients := (List.range p.vars.length).map fun j => if j = range.1 then 1 else 0
  relation := .atMost
  limit := range.2

/-- The upper bounds as constraints, labelled in order. -/
def explicitBounds (p : Program α) (labels : List String) : List (Constraint α) :=
  (labels.zip p.ranges).map fun (label, range) => p.rangeConstraint label range

/-- **The program with its bounds written out**: every quantity is counted from its lower bound, and
every upper bound is a constraint after those of the program. -/
def withExplicitBounds (p : Program α) (labels : List String) : Program α where
  vars := p.vars.map fun v => { name := v.name, lower := 0, upper := none }
  objective := p.objective
  constraints := p.constraints.map p.shiftedConstraint ++ p.explicitBounds labels

/-- **What is written out is well formed**, if no label is used twice. -/
theorem WellFormed.withExplicitBounds {p : Program ℚ} (h : p.WellFormed) {labels : List String}
    (count : labels.length = p.ranges.length) (fresh : (p.labels ++ labels).Nodup) :
    (p.withExplicitBounds labels).WellFormed := by
  have labelled : (p.withExplicitBounds labels).labels = p.labels ++ labels := by
    have shifted : (p.constraints.map p.shiftedConstraint).map (·.label) = p.labels := List.map_map
    have bounds : (p.explicitBounds labels).map (·.label) = labels :=
      List.map_map.trans (List.map_fst_zip count.le)
    rw [Program.labels, Program.withExplicitBounds, List.map_append, shifted, bounds]
  have rows : ∀ c ∈ (p.withExplicitBounds labels).constraints,
      ProperRow p.vars.length c.coefficients := by
    intro c hc
    obtain old | bound := List.mem_append.mp hc
    · obtain ⟨d, hd, rfl⟩ := List.mem_map.mp old
      exact h.rows d hd
    · obtain ⟨e, -, rfl⟩ := List.mem_map.mp bound
      exact ⟨by simp [rangeConstraint], fun _ _ => rfl⟩
  exact
    { nonempty := fun empty => h.nonempty (List.map_eq_nil_iff.mp empty)
      names := by
        rw [Program.names, Program.withExplicitBounds, List.map_map]
        exact h.names
      bounds := by
        intro v hv
        obtain ⟨w, -, rfl⟩ := List.mem_map.mp hv
        exact ⟨rfl, lt_irrefl 0, nofun⟩
      objective := by simpa [Program.withExplicitBounds] using h.objective
      labels := labelled ▸ fresh
      rows := by simpa [Program.withExplicitBounds] using rows
      limits := fun _ _ => rfl }

end Program

/-! ## Points and their lower bounds -/

theorem zipWith_take_left {β γ δ : Type} (f : β → γ → δ) (n : ℕ) (xs : List β) (ys : List γ) :
    List.zipWith f (xs.take n) ys = (List.zipWith f xs ys).take n := by
  induction n generalizing xs ys with
  | zero => rfl
  | succ n ih =>
    cases xs with
    | nil => rfl
    | cons x xs =>
      cases ys with
      | nil => rfl
      | cons y ys => rw [List.take_succ_cons, List.zipWith_cons_cons, ih, List.zipWith_cons_cons,
          List.take_succ_cons]

theorem zipWith_append_right {β γ δ : Type} {f : β → γ → δ} {xs : List β} {ys : List γ}
    (same : xs.length = ys.length) (rest : List γ) :
    List.zipWith f xs (ys ++ rest) = List.zipWith f xs ys := by
  calc List.zipWith f xs (ys ++ rest)
    _ = List.zipWith f (xs ++ []) (ys ++ rest) := by rw [List.append_nil]
    _ = List.zipWith f xs ys := by
      rw [List.zipWith_append same, List.zipWith_nil_left, List.append_nil]

/-- Raising a quantity goes through a sum of points. -/
theorem zipWith_add_modify (x y : List ℚ) (j : ℕ) (a : ℚ) :
    (List.zipWith (· + ·) x y).modify j (· + a) = List.zipWith (· + ·) (x.modify j (· + a)) y := by
  induction x generalizing y j with
  | nil => simp
  | cons b x ih =>
    cases y with
    | nil => simp
    | cons c y =>
      cases j with
      | zero => simp [add_right_comm]
      | succ j => simp [ih]

namespace Simplex

namespace StandardForm

/-! ## What does not depend on the lower bounds -/

section Grounded

variable {α : Type} [Scalar α] (f : StandardForm α)

/-- The standard form over quantities that are taken as they are. -/
def grounded : StandardForm α := { f with lower := f.lower.map fun _ => 0 }

/-- **Lower bounds are looked at only when a solution is read off.** -/
theorem grounded_congruent : f.grounded.Congruent f := ⟨List.length_map _, rfl, rfl⟩

end Grounded

/-- A point in which the basic variable of a row stands as much higher as the row says. -/
def raised {α : Type} [Scalar α] (f : StandardForm α) (values : List α) (r : Row α) : List α :=
  if r.basic < f.variableCount then values.modify r.basic (· + snap r.rhs) else values

variable (f : StandardForm ℚ) (t : Tableau ℚ)

theorem point_eq_foldl : f.point t = t.rows.foldl f.raised f.lower := rfl

theorem raised_add (values : List ℚ) (r : Row ℚ) :
    f.raised (List.zipWith (· + ·) values f.lower) r =
      List.zipWith (· + ·) (f.raised values r) f.lower := by
  unfold raised
  split
  · exact zipWith_add_modify _ _ _ _
  · rfl

/-- **The point of a tableau is read above the lower bounds.** -/
theorem point_eq_add : f.point t = List.zipWith (· + ·) (f.grounded.point t) f.lower := by
  have start : List.zipWith (· + ·) f.grounded.lower f.lower = f.lower := by
    rw [grounded, List.zipWith_map_left, List.zipWith_self]
    simp
  have same : f.grounded.raised = f.raised := by
    funext values r
    rw [raised, raised, f.grounded_congruent.variableCount]
  calc f.point t
    _ = t.rows.foldl f.raised (List.zipWith (· + ·) f.grounded.lower f.lower) := by
      rw [start, point_eq_foldl]
    _ = List.zipWith (· + ·) (t.rows.foldl f.raised f.grounded.lower) f.lower :=
      List.foldl_hom (List.zipWith (· + ·) · f.lower) f.raised_add
    _ = List.zipWith (· + ·) (f.grounded.point t) f.lower := by
      rw [point_eq_foldl, same]

/-- The rows of the bounds that are written out are those of the bounds. -/
theorem rows_explicitBounds {p : Program ℚ} {labels : List String}
    (count : labels.length = p.ranges.length) :
    (p.explicitBounds labels).map (fun c => StandardRow.normalize c.coefficients c.relation c.limit) =
      p.vars.zipIdx.filterMap fun (v, j) =>
        v.upper.map fun upper => boundRow p.vars.length j (upper - v.lower) := by
  have rows : (p.explicitBounds labels).map
      (fun c => StandardRow.normalize c.coefficients c.relation c.limit) =
      ((labels.zip p.ranges).map Prod.snd).map fun range =>
        boundRow p.vars.length range.1 range.2 := by
    rw [Program.explicitBounds, List.map_map, List.map_map]
    rfl
  rw [rows, List.map_snd_zip count.ge, Program.ranges, List.map_filterMap]
  simp only [Option.map_map]
  rfl

/-- **Writing bounds out changes nothing but where quantities are counted from.** -/
theorem ofProgram_withExplicitBounds {p : Program ℚ} {labels : List String}
    (count : labels.length = p.ranges.length) :
    ofProgram (p.withExplicitBounds labels) = (ofProgram p).grounded := by
  have lower : (p.withExplicitBounds labels).vars.map (·.lower) = p.vars.map fun _ => 0 :=
    List.map_map
  have grounded : (ofProgram p).grounded.lower = p.vars.map fun _ => 0 := List.map_map
  have constraints : (p.constraints.map p.shiftedConstraint).map (fun c =>
        StandardRow.normalize c.coefficients c.relation c.limit) =
      p.constraints.map fun c => StandardRow.normalize c.coefficients c.relation
        (c.limit - dot c.coefficients (p.vars.map (·.lower))) := List.map_map
  have unbounded : ((p.withExplicitBounds labels).vars.zipIdx.filterMap fun (v, j) =>
      v.upper.map fun upper => boundRow (p.withExplicitBounds labels).vars.length j (upper - v.lower)) =
        [] := by
    rw [List.filterMap_eq_nil_iff]
    rintro ⟨v, j⟩ hv
    obtain ⟨w, -, rfl⟩ := List.mem_map.mp (List.fst_mem_of_mem_zipIdx hv)
    rfl
  -- counted from zero, the rows have the limits as they are written
  refine StandardForm.mk.injEq .. |>.mpr ⟨lower.trans grounded.symm, ?_, rfl⟩
  simp only [lower, unbounded, List.append_nil, dot_map_zero, sub_zero]
  rw [Program.withExplicitBounds, List.map_append, constraints, rows_explicitBounds count]
  rfl

end StandardForm

end Simplex

/-! ## The solutions -/

/-- **A solution read above lower bounds.** The solution `a` of a program says what `b` says of the
quantities counted from their lower bounds, and nothing of the constraints that `b` has in excess. -/
structure Solution.ReadsAbove (p : Program ℚ) (a b : Solution ℚ) : Prop where
  status : a.status = b.status
  pivots : a.pivots = b.pivots
  names : a.names = b.names
  values : a.values = List.zipWith (· + ·) b.values p.lowerBounds
  objective : a.objective = b.objective.map (· + p.valueAt p.lowerBounds)
  usage : a.usage = List.zipWith
    (fun c u => { u with consumed := u.consumed + c.consumed p.lowerBounds }) p.constraints b.usage
  duals : a.duals = b.duals.take p.constraints.length
  reducedCosts : a.reducedCosts = b.reducedCosts
  basic : a.basic = b.basic
  /-- At an optimum there is one quantity per variable, and one usage and one dual value per
  constraint of the program. -/
  counts : a.status = .optimal → b.values.length = p.vars.length ∧
    a.usage.map (·.label) = p.labels ∧ a.duals.length = p.constraints.length

theorem Solution.withoutPoint_readsAbove {p q : Program ℚ} (names : q.names = p.names)
    (status : Status) (other : status ≠ .optimal) (violations violations' : List (Violation ℚ))
    (pivots : ℕ) : (withoutPoint p status violations pivots).ReadsAbove p
      (withoutPoint q status violations' pivots) where
  status := rfl
  pivots := rfl
  names := names.symm
  values := rfl
  objective := rfl
  usage := (List.zipWith_nil_right).symm
  duals := List.take_nil.symm
  reducedCosts := rfl
  basic := rfl
  counts optimal := absurd optimal other

namespace Program

variable (p : Program ℚ) (labels : List String)

theorem names_withExplicitBounds : (p.withExplicitBounds labels).names = p.names := List.map_map

theorem take_constraints_withExplicitBounds :
    (p.withExplicitBounds labels).constraints.take p.constraints.length =
      p.constraints.map p.shiftedConstraint :=
  List.take_left' (List.length_map _)

variable {p}

/-- The usage of a constraint, at quantities counted from their lower bounds. -/
theorem usage_shiftedConstraint {c : Constraint ℚ} {x : List ℚ} (same : x.length = p.lowerBounds.length)
    (tolerance : ℚ) : c.usage (List.zipWith (· + ·) x p.lowerBounds) tolerance =
      { (p.shiftedConstraint c).usage x tolerance with
        consumed := ((p.shiftedConstraint c).usage x tolerance).consumed +
          c.consumed p.lowerBounds } := by
  have consumed : c.consumed (List.zipWith (· + ·) x p.lowerBounds) =
      (p.shiftedConstraint c).consumed x + c.consumed p.lowerBounds := dot_add c.coefficients same
  have slack : c.slack (c.consumed (List.zipWith (· + ·) x p.lowerBounds)) =
      (p.shiftedConstraint c).slack ((p.shiftedConstraint c).consumed x) := by
    rw [consumed, shiftedConstraint, Constraint.consumed, Constraint.consumed]
    obtain ⟨label, coefficients, relation, limit⟩ := c
    cases relation <;> simp only [Constraint.slack] <;> ring
  rw [Constraint.usage, slack, consumed]
  rfl

end Program

namespace Simplex

namespace StandardForm

theorem duals_withExplicitBounds (p : Program ℚ) (labels : List String) (f : StandardForm ℚ)
    (t : Tableau ℚ) :
    f.duals p t = (f.duals (p.withExplicitBounds labels) t).take p.constraints.length := by
  rw [duals, duals, ← zipWith_take_left, p.take_constraints_withExplicitBounds, List.zipWith_map_left]
  rfl

theorem solution_readsAbove (p : Program ℚ) (labels : List String) (s : SolverSettings ℚ) (t : Tableau ℚ)
    (pivots : ℕ) : ((ofProgram p).solution p s t pivots).ReadsAbove p
      ((ofProgram p).grounded.solution (p.withExplicitBounds labels) s t pivots) := by
  have count : ((ofProgram p).grounded.point t).length = p.lowerBounds.length := by
    rw [length_point, (ofProgram p).grounded_congruent.variableCount]
    rfl
  have value : p.valueAt ((ofProgram p).point t) =
      p.valueAt ((ofProgram p).grounded.point t) + p.valueAt p.lowerBounds := by
    rw [point_eq_add]
    exact dot_add p.objective.coefficients count
  have usage : p.usage ((ofProgram p).point t) s.bindingTolerance =
      List.zipWith (fun c u => { u with consumed := u.consumed + c.consumed p.lowerBounds }) p.constraints
        ((p.withExplicitBounds labels).usage ((ofProgram p).grounded.point t) s.bindingTolerance) := by
    rw [Program.usage, Program.usage, Program.withExplicitBounds, List.map_append, List.map_map,
      point_eq_add, zipWith_append_right (List.length_map _).symm, List.zipWith_map_right,
      List.zipWith_self]
    exact List.map_congr_left fun c _ => Program.usage_shiftedConstraint count s.bindingTolerance
  exact
    { status := rfl
      pivots := rfl
      names := (p.names_withExplicitBounds labels).symm
      values := point_eq_add _ t
      objective := congrArg some value
      usage := usage
      duals := by
        rw [solution, solution, duals_withExplicitBounds p labels, duals, duals,
          (ofProgram p).grounded_congruent.slots]
        rfl
      reducedCosts := by
        rw [solution, solution, (ofProgram p).grounded_congruent.reducedCosts]
        rfl
      basic := ((ofProgram p).grounded_congruent.basicFlags t).symm
      counts := fun _ => ⟨count.trans (List.length_map _), List.map_map, length_duals⟩ }

end StandardForm

/-- **Solving with bounds is solving with the bounds written out.** -/
theorem solve_readsAbove {p : Program ℚ} {labels : List String}
    (count : labels.length = p.ranges.length) (s : SolverSettings ℚ) :
    (solve s p).ReadsAbove p (solve s (p.withExplicitBounds labels)) := by
  have names := p.names_withExplicitBounds labels
  have congruent := (StandardForm.ofProgram p).grounded_congruent
  simp only [solve, StandardForm.ofProgram_withExplicitBounds count, congruent.start,
    congruent.secondPhase]
  cases (StandardForm.ofProgram p).start s with
  | limit pivots => exact Solution.withoutPoint_readsAbove names .pivotLimit (by decide) [] [] _
  | infeasible t pivots => exact Solution.withoutPoint_readsAbove names .infeasible (by decide) _ _ _
  | feasible t pivots =>
    dsimp only
    cases ((StandardForm.ofProgram p).secondPhase s t pivots).stop with
    | limit => exact Solution.withoutPoint_readsAbove names .pivotLimit (by decide) [] [] _
    | unbounded => exact Solution.withoutPoint_readsAbove names .unbounded (by decide) [] [] _
    | optimal => exact StandardForm.solution_readsAbove p labels s _ _

/-- **Bounds are eliminated exactly.** The program with its bounds written out, under labels that are
not in use, is well formed, and under all settings it is solved as the program itself is, in as many
pivots and with the same result, read above the lower bounds. -/
theorem solve_withExplicitBounds {p : Program ℚ} (h : p.WellFormed) {labels : List String}
    (count : labels.length = p.ranges.length) (fresh : (p.labels ++ labels).Nodup) :
    (p.withExplicitBounds labels).WellFormed ∧
      ∀ s, (solve s p).ReadsAbove p (solve s (p.withExplicitBounds labels)) :=
  ⟨h.withExplicitBounds count fresh, solve_readsAbove count⟩

/-- Two kinds of goods on a van, two or three of the first and up to one and a half of the second. -/
def van : Program ℚ where
  vars := [{ name := "first", lower := 2, upper := some 3 },
    { name := "second", lower := 0, upper := some (3 / 2) }]
  objective := { sense := .maximize, coefficients := [1, 1] }
  constraints := [{ label := "load", coefficients := [1, 1], relation := .atMost, limit := 10 }]

theorem solve_withExplicitBounds_van :
    (solve .default van).status = .optimal ∧ (solve .default van).values = [3, 3 / 2] ∧
    (van.withExplicitBounds ["most of first", "most of second"]).WellFormed ∧
    ∀ s, (solve s van).ReadsAbove van
      (solve s (van.withExplicitBounds ["most of first", "most of second"])) := by
  have wellFormed : van.WellFormed :=
    van.flaw?_eq_none_iff.mp (Option.isNone_iff_eq_none.mp (by decide +kernel))
  exact ⟨by decide +kernel, by decide +kernel,
    solve_withExplicitBounds wellFormed (by decide +kernel) (by decide +kernel)⟩

end Simplex

end Allotment
