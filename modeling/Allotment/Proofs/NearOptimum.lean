import Allotment.Proofs.Prices

/-!
# How good an optimum is under tolerances

With a pivot tolerance a run ends at a tableau whose columns may still gain a little. No point can
make more of them than that little times what the point uses of the columns, and what it uses is its
`leeway`: the distance to the lower bounds, the slack of the inequalities and the distance to the
upper bounds. This holds whatever became of the right-hand sides on the way, because only the
equations of the tableau are used. What the reported point leaves out as dust comes on top.
-/

namespace Allotment
set_option autoImplicit false

/-- **What a point leaves unused** of a program: its distance to the lower bounds, the slack of the
inequalities and its distance to the upper bounds, all added up. -/
def Program.leeway (p : Program ℚ) (x : List ℚ) : ℚ :=
  (List.zipWith (fun (v : Variable ℚ) q => q - v.lower) p.vars x).sum +
    ((p.constraints.filter (·.relation != .equal)).map fun c => c.slack (c.consumed x)).sum +
    (List.zipWith (fun (v : Variable ℚ) q => (v.upper.map (· - q)).getD 0) p.vars x).sum

namespace Simplex

namespace StandardForm

/-- What a point of the variables, extended to the slacks and surpluses, uses of the columns. -/
def used (f : StandardForm ℚ) (z : ℕ → ℚ) : ℚ := ∑ j ∈ Finset.range f.artificialStart, f.lift 0 z j

section Form

variable {f : StandardForm ℚ} {z : ℕ → ℚ}

/-- **Where columns gain up to a tolerance, a point gains over the vertex at most the tolerance times
what it uses of the columns.** -/
theorem weigh_gains_le_used (proper : f.Proper) {t : Tableau ℚ}
    (sound : Tableau.Sound f.tableau f.columnCount t) {tolerance : ℚ}
    (loses : ∀ j < f.artificialStart, t.goal.entry j ≤ tolerance)
    (nonneg : ∀ j < f.variableCount, 0 ≤ z j) (meets : f.Meets 0 z) :
    weigh f.gains z ≤ weigh f.gains t.vertex + tolerance * f.used z := by
  have goal : ∀ w, f.tableau.Solves w → weigh f.gains w = t.goal.excess w := fun w solves =>
    ((excess_goal w).symm.trans (sound.equivalent.goal_eq w solves).symm)
  have vertex := goal _ ((sound.equivalent.solves_iff _).mp sound.canonical.solves_vertex)
  have lifted := goal _ (solves_lift proper meets)
  rw [← excess_goal, goal_excess_lift proper] at lifted
  -- the columns after the slacks are not used, and each of the others gains at most the tolerance
  have gain : t.goal.lhs (f.lift 0 z) ≤ tolerance * f.used z := by
    rw [Line.lhs_eq_sum sound.canonical.goalWidth,
      ← Finset.sum_range_add_sum_Ico _ artificialStart_le, used, Finset.mul_sum]
    have unused : ∑ j ∈ Finset.Ico f.artificialStart f.columnCount, t.goal.entry j * f.lift 0 z j = 0 :=
      Finset.sum_eq_zero fun j hj => by rw [lift_of_le (Finset.mem_Ico.mp hj).1, mul_zero]
    rw [unused, add_zero]
    exact Finset.sum_le_sum fun j hj =>
      mul_le_mul_of_nonneg_right (loses j (Finset.mem_range.mp hj)) (lift_nonneg nonneg j)
  rw [sound.canonical.goal_excess_vertex] at vertex
  rw [lifted, vertex, Line.excess]
  linarith

/-- What the slack or surplus column of a row takes. -/
def rowRoom (z : ℕ → ℚ) (r : StandardRow ℚ) : ℚ :=
  if r.relation = .equal then 0 else |r.rhs - weigh r.coefficients z|

/-- **The columns used**, quantity by quantity and row by row. -/
theorem used_eq : f.used z =
    ∑ j ∈ Finset.range f.variableCount, z j + (f.rows.map (rowRoom z)).sum := by
  have slacks : ∑ j ∈ Finset.Ico f.variableCount f.artificialStart, f.lift 0 z j =
      (f.rows.map (rowRoom z)).sum := by
    rw [artificialStart, sum_Ico_eq_range', ← slackColumns_slots, sum_map_filterMap]
    congr 1
    apply List.ext_getElem?
    intro i
    rw [List.getElem?_map, List.getElem?_map]
    cases hr : f.rows[i]? with
    | none =>
      have outside : f.slots.length ≤ i := by
        rw [length_slots]
        exact List.getElem?_eq_none_iff.mp hr
      rw [List.getElem?_eq_none outside]
      rfl
    | some r =>
      obtain ⟨slot, hs⟩ := exists_slot (List.getElem?_eq_some_iff.mp hr).1
      have room : f.room 0 z i = |r.rhs - weigh r.coefficients z| := by
        rw [StandardForm.room, hr, Option.map_some, Option.getD_some, Pi.zero_apply, add_zero]
      rw [hs, Option.map_some, Option.map_some, rowRoom, ← slot_relation hr hs, ← room]
      cases slot with
      | slack s => rw [← lift_slack hs rfl]; rfl
      | surplus s a => rw [← lift_slack hs rfl]; rfl
      | artificial a => rfl
  rw [used, ← Finset.sum_range_add_sum_Ico _ variableCount_le, slacks]
  congr 1
  exact Finset.sum_congr rfl fun j hj => lift_of_lt (Finset.mem_range.mp hj)

end Form

section Program

variable {p : Program ℚ} (h : p.WellFormed) {z : ℕ → ℚ}
include h

/-- The room of the row of a constraint that holds is the slack of the constraint. -/
theorem rowRoom_rowOf {c : Constraint ℚ} (hc : c ∈ p.constraints) (holds : c.Holds ((ofProgram p).corner z)) :
    rowRoom z (rowOf p c) =
      if c.relation = .equal then 0 else c.slack (c.consumed ((ofProgram p).corner z)) := by
  have left : |(rowOf p c).rhs - weigh (rowOf p c).coefficients z| =
      |c.limit - c.consumed ((ofProgram p).corner z)| := by
    rw [rhs_sub_weigh_rowOf h hc, abs_mul, StandardRow.abs_scale, one_mul]
  have same : (rowOf p c).relation = .equal ↔ c.relation = .equal :=
    StandardRow.relation_normalize_eq_equal _ _ _
  rw [rowRoom, left]
  simp only [same]
  unfold Constraint.Holds at holds
  cases relation : c.relation with
  | atMost =>
    rw [relation] at holds
    simp only [reduceCtorEq, if_false, Constraint.slack, relation]
    exact abs_of_nonneg (sub_nonneg.mpr holds)
  | atLeast =>
    rw [relation] at holds
    simp only [reduceCtorEq, if_false, Constraint.slack, relation]
    rw [abs_sub_comm]
    exact abs_of_nonneg (sub_nonneg.mpr holds)
  | equal => rfl

omit h in
/-- A point is what its allocation has over the lower bounds. -/
theorem sum_quantities_corner : ∑ j ∈ Finset.range (ofProgram p).variableCount, z j =
    (List.zipWith (fun (v : Variable ℚ) q => q - v.lower) p.vars ((ofProgram p).corner z)).sum := by
  have list : List.zipWith (fun (v : Variable ℚ) q => q - v.lower) p.vars ((ofProgram p).corner z) =
      (List.range p.vars.length).map z := by
    apply List.ext_getElem?
    intro j
    rw [List.getElem?_zipWith, getElem?_corner, lower_ofProgram, List.getElem?_map]
    cases hv : p.vars[j]? with
    | none => simp [List.getElem?_eq_none_iff.mp hv]
    | some v => simp [(List.getElem?_eq_some_iff.mp hv).1]
  rw [list, variableCount_ofProgram]
  exact (Finset.sum_map_val _ _).symm

/-- The rooms of the rows of the constraints are the slacks of the inequalities. -/
theorem sum_rowRoom_constraints (feasible : p.Feasible ((ofProgram p).corner z)) :
    (p.constraints.map fun c => rowRoom z (rowOf p c)).sum =
      ((p.constraints.filter (·.relation != .equal)).map fun c =>
        c.slack (c.consumed ((ofProgram p).corner z))).sum := by
  rw [← List.filterMap_eq_filter, sum_map_filterMap]
  congr 1
  apply List.map_congr_left
  intro c hc
  rw [rowRoom_rowOf h hc (feasible.holds c hc)]
  by_cases equal : c.relation = .equal
  · simp [Option.guard, equal]
  · simp [Option.guard, equal]

/-- The rooms of the rows of the bounds are what the allocation leaves below the upper bounds. -/
theorem sum_rowRoom_bounds (feasible : p.Feasible ((ofProgram p).corner z)) :
    ((p.vars.zipIdx.filterMap fun (v, j) => v.upper.map fun upper =>
        boundRow p.vars.length j (upper - v.lower)).map (rowRoom z)).sum =
      (List.zipWith (fun (v : Variable ℚ) q => (v.upper.map (· - q)).getD 0) p.vars
        ((ofProgram p).corner z)).sum := by
  rw [sum_map_filterMap]
  congr 1
  apply List.ext_getElem?
  intro j
  rw [List.getElem?_map, List.getElem?_zipIdx, List.getElem?_zipWith, getElem?_corner, lower_ofProgram]
  cases hv : p.vars[j]? with
  | none => rfl
  | some v =>
    obtain ⟨inside, -⟩ := List.getElem?_eq_some_iff.mp hv
    have range := ((within_corner_iff.mp feasible.within) j v hv).2
    cases hu : v.upper with
    | none => simp [hu]
    | some u =>
      have below := range u hu
      have room : |u - v.lower - z j| = u - (v.lower + z j) := by
        rw [sub_sub]
        exact abs_of_nonneg (sub_nonneg.mpr below)
      simp [hu, rowRoom, bound_row h hv hu, weigh_indicator inside, room]

/-- **At a feasible point the columns used are the leeway of the point.** -/
theorem used_eq_leeway (feasible : p.Feasible ((ofProgram p).corner z)) :
    (ofProgram p).used z = p.leeway ((ofProgram p).corner z) := by
  rw [used_eq, rows_ofProgram, List.map_append, List.sum_append, List.map_map, Program.leeway, ← sum_quantities_corner,
    ← sum_rowRoom_constraints h feasible, ← sum_rowRoom_bounds h feasible, ← add_assoc]
  rfl

omit h in
/-- What the dust of a point is worth to the objective. -/
theorem weigh_gains_sub_snap_le (z : ℕ → ℚ) : weigh (ofProgram p).gains z -
      weigh (ofProgram p).gains (fun j => snap (z j)) ≤
    1e-12 * (p.objective.coefficients.map fun c => |c|).sum := by
  have magnitudes : (ofProgram p).gains.map (fun a => |a|) = p.objective.coefficients.map fun c => |c| := by
    rw [ofProgram, List.map_map]
    exact List.map_congr_left fun c _ => Sense.abs_sign_mul _ c
  rw [← magnitudes, ← weigh_sub]
  refine weigh_le_of_abs_le fun j _ => ?_
  rw [Pi.sub_apply, abs_sub_comm]
  exact (abs_snap_sub_lt _).le

end Program

end StandardForm

open StandardForm

/-- **How far an optimum can be beaten**, for every valid program and every tolerance: no feasible
point is better by more than the pivot tolerance times its leeway and what the dust is worth, and no
inequality is priced on the wrong side of zero by more than the pivot tolerance. -/
theorem optimum_nearly_unbeaten (s : SolverSettings ℚ) (p : Program ℚ) (valid : p.flaw? = none)
    (nonneg : 0 ≤ s.pivotTolerance) (optimal : (solve s p).status = .optimal) :
    ∃ value, (solve s p).objective = some value ∧
      (∀ x, p.Feasible x → p.objective.sense.sign * (p.valueAt x - value) ≤
        s.pivotTolerance * p.leeway x + 1e-12 * (p.objective.coefficients.map fun c => |c|).sum) ∧
      ∀ (k : ℕ) (c : Constraint ℚ), p.constraints[k]? = some c → c.relation ≠ .equal →
        ∃ dual, (solve s p).duals[k]? = some dual ∧ -s.pivotTolerance ≤ p.objective.sense.sign * dual := by
  have h := p.flaw?_eq_none_iff.mp valid
  have proper := ofProgram_proper h
  obtain ⟨run, hrun, stop, solution⟩ := exists_run_of_optimal optimal
  have sound := sound_finalRun? h nonneg hrun
  have loses := fun j hj => entry_le_of_optimal (j := j) nonneg hrun stop hj
  have objective : (solve s p).objective =
      some (p.valueAt ((ofProgram p).corner fun j => snap (run.tableau.vertex j))) := by
    rw [solution, ← point_eq sound.canonical]
    rfl
  have duals : (solve s p).duals = (ofProgram p).duals p run.tableau := by rw [solution]; rfl
  refine ⟨_, objective, fun x feasible => ?_, fun k c hc inequality => ?_⟩
  · have restored := corner_shifted_of_within feasible.within
    rw [← restored] at feasible ⊢
    obtain ⟨quantities, meets⟩ := (feasible_corner_iff h).mp feasible
    have gain := weigh_gains_le_used proper sound loses quantities meets
    rw [used_eq_leeway h feasible] at gain
    have dust := weigh_gains_sub_snap_le (p := p) run.tableau.vertex
    have better := improvement_corner h (z := (ofProgram p).shifted x) (w := fun j => snap (run.tableau.vertex j))
    unfold Sense.improvement at better
    rw [better]
    linarith
  · have inside : k < ((ofProgram p).duals p run.tableau).length :=
      length_duals.symm ▸ (List.getElem?_eq_some_iff.mp hc).1
    have row : (rowOf p c).relation ≠ .equal := fun equal =>
      inequality ((StandardRow.relation_normalize_eq_equal _ _ _).mp equal)
    have bound := neg_le_rowDual proper sound.equivalent loses (row_constraint hc) row
    rw [rowOf, StandardRow.relaxationSign_normalize _ _ _ inequality] at bound
    refine ⟨((ofProgram p).duals p run.tableau)[k], by rw [duals, List.getElem?_eq_getElem inside], ?_⟩
    rw [← List.getD_eq_getElem _ 0 inside, sign_mul_duals hc]
    exact bound

theorem optimum_nearly_unbeaten_sample : (Program.sample.flaw? = none ∧
      0 ≤ (SolverSettings.default : SolverSettings ℚ).pivotTolerance ∧
      (solve .default Program.sample).status = .optimal) ∧
    ∃ value, (solve .default Program.sample).objective = some value ∧
      (∀ x, Program.sample.Feasible x → Program.sample.objective.sense.sign * (Program.sample.valueAt x - value) ≤
        (SolverSettings.default : SolverSettings ℚ).pivotTolerance * Program.sample.leeway x +
          1e-12 * (Program.sample.objective.coefficients.map fun c => |c|).sum) ∧
      ∀ (k : ℕ) (c : Constraint ℚ), Program.sample.constraints[k]? = some c → c.relation ≠ .equal →
        ∃ dual, (solve .default Program.sample).duals[k]? = some dual ∧
          -(SolverSettings.default : SolverSettings ℚ).pivotTolerance ≤
            Program.sample.objective.sense.sign * dual := by
  have nonneg : 0 ≤ (SolverSettings.default : SolverSettings ℚ).pivotTolerance := by decide +kernel
  have optimal : (solve .default Program.sample).status = .optimal := by decide +kernel
  exact ⟨⟨Program.flaw?_sample, nonneg, optimal⟩,
    optimum_nearly_unbeaten .default Program.sample Program.flaw?_sample nonneg optimal⟩

end Simplex

end Allotment
