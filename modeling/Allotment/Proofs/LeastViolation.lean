import Allotment.Proofs.Bounds
import Allotment.Proofs.Diagnosis

/-!
# What the diagnosis of an infeasible program is least at

The first phase ends where its artificial columns add up to the least, and the diagnosis measures the
constraints of the program at that point. Both come to one number. A point that keeps the rows without a
surplus column at most at their right-hand sides is completed to a solution by artificial columns that
make up the gaps of the rows (`shortfall_complete`), and a solution has in each artificial column at least
the gap of the row (`gap_le_shortfall`), so the gaps are least where the artificial columns are
(`residual_least`). In the program such a point is an `Attempt`, and there the gaps of the rows are the
breaches of the constraints (`gap_rowOf`).
-/

namespace Allotment
set_option autoImplicit false

/-- What a point lacks of a constraint, or has too much. -/
def Constraint.breach (c : Constraint ℚ) (x : List ℚ) : ℚ :=
  match c.relation with
  | .atMost => max 0 (c.consumed x - c.limit)
  | .atLeast => max 0 (c.limit - c.consumed x)
  | .equal => |c.limit - c.consumed x|

namespace Program

/-- **What a point violates of the constraints**, all added up. -/
def breach (p : Program ℚ) (x : List ℚ) : ℚ := (p.constraints.map (·.breach x)).sum

/-- **The inequalities that no attempt gives up**: the maxima that hold at the lower bounds, and the
minima that hold there with room. -/
def Kept (p : Program ℚ) (c : Constraint ℚ) : Prop :=
  match c.relation with
  | .atMost => c.consumed p.lowerBounds ≤ c.limit
  | .atLeast => c.limit < c.consumed p.lowerBounds
  | .equal => False

/-- What an attempt respects of a constraint: an inequality that is kept, and of an equality the side on
which the lower bounds are. -/
def Respects (p : Program ℚ) (c : Constraint ℚ) (x : List ℚ) : Prop :=
  match c.relation with
  | .atMost => c.consumed p.lowerBounds ≤ c.limit → c.consumed x ≤ c.limit
  | .atLeast => c.limit < c.consumed p.lowerBounds → c.limit ≤ c.consumed x
  | .equal => (c.consumed p.lowerBounds ≤ c.limit → c.consumed x ≤ c.limit) ∧
      (c.limit < c.consumed p.lowerBounds → c.limit ≤ c.consumed x)

/-- **The points that are attempted**: within the bounds, and respecting every constraint. -/
structure Attempt (p : Program ℚ) (x : List ℚ) : Prop where
  within : p.Within x
  respects : ∀ c ∈ p.constraints, p.Respects c x

/-- **A diagnosis that is least infeasible**: it is of an attempted point, what it lists is more than
nothing and adds up to the least that attempted points violate, and no kept inequality is listed. -/
structure LeastInfeasible (p : Program ℚ) (violations : List (Violation ℚ)) : Prop where
  attempted : ∃ x, p.Attempt x ∧ violations = p.violations x 0
  positive : 0 < (violations.map (·.amount)).sum
  least : IsLeast {total | ∃ x, p.Attempt x ∧ p.breach x = total} (violations.map (·.amount)).sum
  outside : ∀ v ∈ violations, ∀ c ∈ p.constraints, c.label = v.label → ¬p.Kept c

end Program

/-! ## Gaps of rows -/

namespace Simplex

/-- What a row with an artificial column is short of its right-hand side. -/
def StandardRow.gap (r : StandardRow ℚ) (z : ℕ → ℚ) : ℚ :=
  if r.relation = .atMost then 0 else max 0 (r.rhs - weigh r.coefficients z)

theorem StandardRow.gap_nonneg (r : StandardRow ℚ) (z : ℕ → ℚ) : 0 ≤ r.gap z := by
  unfold gap
  split
  · exact le_rfl
  · exact le_max_left _ _

namespace StandardForm

/-- No row without a surplus column is above its right-hand side. -/
def Short (f : StandardForm ℚ) (z : ℕ → ℚ) : Prop :=
  ∀ r ∈ f.rows, r.relation ≠ .atLeast → weigh r.coefficients z ≤ r.rhs

/-- The gap of the row of an index. -/
def gapAt (f : StandardForm ℚ) (z : ℕ → ℚ) (i : ℕ) : ℚ := ((f.rows[i]?).map (·.gap z)).getD 0

/-- The quantity in the artificial column of the row of an index. -/
def artificialAt (f : StandardForm ℚ) (z : ℕ → ℚ) (i : ℕ) : ℚ :=
  ((f.slots[i]?).map fun slot => (slot.artificialColumn?.map z).getD 0).getD 0

/-- **A point of the variables, completed by the artificial columns**: each takes the gap of its row. -/
def complete (f : StandardForm ℚ) (z : ℕ → ℚ) : ℕ → ℚ :=
  f.lift (-f.gapAt z) z + f.correction (-f.gapAt z)

section Form

variable {f : StandardForm ℚ} {z : ℕ → ℚ} {i : ℕ} {r : StandardRow ℚ} {slot : Slot}

theorem gapAt_eq (hr : f.rows[i]? = some r) : f.gapAt z i = r.gap z := by
  rw [gapAt, hr]
  rfl

theorem gapAt_nonneg : 0 ≤ f.gapAt z i := by
  unfold gapAt
  cases f.rows[i]? with
  | none => exact le_rfl
  | some r => exact r.gap_nonneg z

theorem sum_gap : (f.rows.map (·.gap z)).sum = ∑ i ∈ Finset.range f.rows.length, f.gapAt z i :=
  sum_map_eq_range _ _

/-- Lowered by their gaps the rows hold. -/
theorem meets_gap (short : f.Short z) : f.Meets (-f.gapAt z) z := by
  intro i r hr
  have below := short r (List.mem_of_getElem? hr)
  rw [Pi.neg_apply, gapAt_eq hr, StandardRow.gap]
  cases relation : r.relation with
  | atMost =>
    rw [if_pos rfl, neg_zero, add_zero]
    exact below (by rw [relation]; nofun)
  | atLeast =>
    rw [if_neg nofun, ← sub_eq_add_neg]
    have gap := le_max_right 0 (r.rhs - weigh r.coefficients z)
    exact (show _ ≤ _ by linarith)
  | equal =>
    have room := sub_nonneg.mpr (below (by rw [relation]; nofun))
    rw [if_neg nofun, max_eq_right room]
    exact (show _ = _ by ring)

/-- **The shortfall, row by row.** -/
theorem shortfall_eq : f.shortfall z = ∑ i ∈ Finset.range f.rows.length, f.artificialAt z i := by
  rw [shortfall, columnCount, sum_Ico_eq_range', ← artificialColumns_slots, sum_map_filterMap,
    sum_map_eq_range, length_slots]
  rfl

/-- A correction that leaves the rows without an artificial column alone falls short of the shifts. -/
theorem shortfall_correction {shift : ℕ → ℚ} (unused : ∀ (i : ℕ) (r : StandardRow ℚ), f.rows[i]? = some r →
      r.relation = .atMost → shift i = 0) :
    f.shortfall (f.correction shift) = -∑ k ∈ Finset.range f.rows.length, shift k := by
  have line : f.artificialLine.lhs (f.correction shift) = -f.shortfall (f.correction shift) :=
    (sub_zero _).symm.trans (excess_artificialLine _)
  rw [← neg_inj, ← line, lhs_correction]
  congr 1
  rw [← Finset.sum_neg_distrib]
  apply Finset.sum_congr rfl
  intro k hk
  obtain ⟨slot, hs⟩ := exists_slot (Finset.mem_range.mp hk)
  have hr := List.getElem?_eq_getElem (Finset.mem_range.mp hk)
  have mem := List.mem_of_getElem? hs
  rw [unitColumn_eq hs, entry_artificialLine (unit_bounds mem).2]
  cases slot with
  | slack s =>
    rw [unused k _ hr (slot_relation hr hs).symm]
    ring
  | surplus s a => rw [Slot.unit, if_neg (artificialColumn_bounds mem rfl).1.not_gt, mul_neg_one]
  | artificial a => rw [Slot.unit, if_neg (artificialColumn_bounds mem rfl).1.not_gt, mul_neg_one]

/-- The completed point uses no quantity that is negative. -/
theorem complete_nonneg (nonneg : ∀ j < f.variableCount, 0 ≤ z j) (j : ℕ) : 0 ≤ f.complete z j := by
  refine add_nonneg (lift_nonneg nonneg j) ?_
  rw [correction, Finset.sum_apply]
  refine Finset.sum_nonneg fun k _ => ?_
  rw [Pi.smul_apply, Pi.neg_apply, neg_neg, smul_eq_mul]
  refine mul_nonneg gapAt_nonneg ?_
  rw [Pi.single_apply]
  split <;> norm_num

/-- **The artificial columns of a completed point make up the gaps.** -/
theorem shortfall_complete : f.shortfall (f.complete z) = (f.rows.map (·.gap z)).sum := by
  have lifted : f.shortfall (f.lift (-f.gapAt z) z) = 0 := shortfall_genuine lift_genuine
  have corrected : f.shortfall (f.correction (-f.gapAt z)) =
      -∑ k ∈ Finset.range f.rows.length, (-f.gapAt z) k :=
    shortfall_correction fun i r hr relation => by
      rw [Pi.neg_apply, gapAt_eq hr, StandardRow.gap, if_pos relation, neg_zero]
  have parts : f.shortfall (f.complete z) =
      f.shortfall (f.lift (-f.gapAt z) z) + f.shortfall (f.correction (-f.gapAt z)) :=
    Finset.sum_add_distrib
  simp only [Pi.neg_apply, Finset.sum_neg_distrib, neg_neg] at corrected
  rw [parts, lifted, corrected, zero_add, sum_gap]

section Proper

variable (proper : f.Proper)
include proper

/-- **A completed point solves the first tableau.** -/
theorem solves_complete (short : f.Short z) : f.tableau.Solves (f.complete z) :=
  solves_add_correction proper fun _ _ _ hr hs => excess_lift proper hr hs (meets_gap short)

/-- A solution without negative quantities has no row above its right-hand side but those with a surplus. -/
theorem short_of_solves (nonneg : ∀ j, 0 ≤ z j) (solves : f.tableau.Solves z) : f.Short z := by
  intro r mem other
  obtain ⟨i, hr⟩ := List.getElem?_of_mem mem
  obtain ⟨slot, hs⟩ := exists_slot (List.getElem?_eq_some_iff.mp hr).1
  have balance := (solves_tableau_iff proper z).mp solves i r slot hr hs
  rw [← slot_relation hr hs] at other
  cases slot with
  | slack s =>
    simp only [Slot.part] at balance
    linarith [nonneg s]
  | surplus s a => exact absurd rfl other
  | artificial a =>
    simp only [Slot.part] at balance
    linarith [nonneg a]

/-- **What a row is short of at a solution without negative quantities, its artificial column holds.** -/
theorem gapAt_le_artificialAt (nonneg : ∀ j, 0 ≤ z j) (solves : f.tableau.Solves z)
    (hr : f.rows[i]? = some r) : f.gapAt z i ≤ f.artificialAt z i := by
  obtain ⟨slot, hs⟩ := exists_slot (List.getElem?_eq_some_iff.mp hr).1
  have balance := (solves_tableau_iff proper z).mp solves i r slot hr hs
  rw [gapAt_eq hr, StandardRow.gap, artificialAt, hs, ← slot_relation hr hs]
  cases slot with
  | slack s => exact le_rfl
  | surplus s a =>
    have surplus := nonneg s
    simp only [Slot.part] at balance
    exact max_le (nonneg a) (show r.rhs - weigh r.coefficients z ≤ z a by linarith)
  | artificial a =>
    simp only [Slot.part] at balance
    exact max_le (nonneg a) (show r.rhs - weigh r.coefficients z ≤ z a by linarith)

theorem gap_le_shortfall (nonneg : ∀ j, 0 ≤ z j) (solves : f.tableau.Solves z) :
    (f.rows.map (·.gap z)).sum ≤ f.shortfall z := by
  rw [sum_gap, shortfall_eq]
  exact Finset.sum_le_sum fun i hi => gapAt_le_artificialAt proper nonneg solves
    (List.getElem?_eq_getElem (Finset.mem_range.mp hi))

/-- **The first phase ends where the gaps are least**, and they add up to what its artificial columns
hold there. -/
theorem residual_least {s : SolverSettings ℚ} (sharp : s.pivotTolerance = 0)
    (optimal : (f.firstRun s).stop = .optimal) :
    f.Short (f.firstRun s).tableau.vertex ∧
      ((f.rows.map (·.gap (f.firstRun s).tableau.vertex)).sum = f.residual (f.firstRun s).tableau) ∧
      ∀ z, (∀ j < f.variableCount, 0 ≤ z j) → f.Short z →
        f.residual (f.firstRun s).tableau ≤ (f.rows.map (·.gap z)).sum := by
  have sound := firstRun_sound (s := s) proper sharp.ge
  have nonneg := sound.canonical.vertex_nonneg (firstRun_feasible proper sharp)
  have solves := (sound.equivalent.solves_iff _).mp sound.canonical.solves_vertex
  have short := short_of_solves proper nonneg solves
  have least : ∀ z, (∀ j < f.variableCount, 0 ≤ z j) → f.Short z →
      f.residual (f.firstRun s).tableau ≤ (f.rows.map (·.gap z)).sum := by
    intro z nonneg short
    rw [← shortfall_complete]
    exact residual_firstRun_le proper sharp optimal (complete_nonneg nonneg) (solves_complete proper short)
  refine ⟨short, le_antisymm ?_ (least _ (fun j _ => nonneg j) short), least⟩
  rw [residual_eq sound.canonical]
  exact gap_le_shortfall proper nonneg solves

end Proper

end Form

section Program

variable {p : Program ℚ} {c : Constraint ℚ} {z : ℕ → ℚ}

/-- The two forms of the row of a constraint, and on which side of the limit the lower bounds are. -/
theorem rowOf_cases (p : Program ℚ) (c : Constraint ℚ) :
    c.consumed p.lowerBounds ≤ c.limit ∧ (rowOf p c).scale = 1 ∧ (rowOf p c).relation = c.relation ∨
      c.limit < c.consumed p.lowerBounds ∧ (rowOf p c).scale = -1 ∧ (rowOf p c).relation = c.relation.flip := by
  unfold rowOf StandardRow.normalize
  split
  · next negative => exact Or.inr ⟨sub_neg.mp negative, rfl, rfl⟩
  · next nonneg => exact Or.inl ⟨sub_nonneg.mp (not_lt.mp nonneg), rfl, rfl⟩

variable (h : p.WellFormed)
include h

/-- **A point respects a constraint when the row does not go above its right-hand side** without a surplus
column. -/
theorem respects_corner_iff (hc : c ∈ p.constraints) : p.Respects c ((ofProgram p).corner z) ↔
    ((rowOf p c).relation ≠ .atLeast → weigh (rowOf p c).coefficients z ≤ (rowOf p c).rhs) := by
  rw [← sub_nonneg, rhs_sub_weigh_rowOf h hc, Program.Respects]
  obtain ⟨side, scale, relation⟩ | ⟨side, scale, relation⟩ := rowOf_cases p c
  · rw [scale, relation, one_mul, sub_nonneg]
    cases c.relation <;> simp [side, side.not_gt]
  · rw [scale, relation, neg_one_mul, neg_sub, sub_nonneg]
    cases c.relation <;> simp [side, side.not_ge, Relation.flip]

/-- **At a point that respects a constraint the gap of the row is the breach.** -/
theorem gap_rowOf (hc : c ∈ p.constraints) (respects : p.Respects c ((ofProgram p).corner z)) :
    (rowOf p c).gap z = c.breach ((ofProgram p).corner z) := by
  rw [StandardRow.gap, rhs_sub_weigh_rowOf h hc, Constraint.breach]
  unfold Program.Respects at respects
  obtain ⟨side, scale, relation⟩ | ⟨side, scale, relation⟩ := rowOf_cases p c
  · rw [scale, relation, one_mul]
    cases kind : c.relation with
    | atMost =>
      rw [kind] at respects
      rw [if_pos rfl, max_eq_left (sub_nonpos.mpr (respects side))]
    | atLeast => rw [if_neg nofun]
    | equal =>
      rw [kind] at respects
      have room := sub_nonneg.mpr (respects.1 side)
      rw [if_neg nofun, max_eq_right room, abs_of_nonneg room]
  · rw [scale, relation, neg_one_mul, neg_sub]
    cases kind : c.relation with
    | atMost => rw [Relation.flip, if_neg nofun]
    | atLeast =>
      rw [kind] at respects
      rw [Relation.flip, if_pos rfl, max_eq_left (sub_nonpos.mpr (respects side))]
    | equal =>
      rw [kind] at respects
      have room := sub_nonneg.mpr (respects.2 side)
      rw [Relation.flip, if_neg nofun, max_eq_right room, abs_sub_comm, abs_of_nonneg room]

/-- A quantity is below its upper bound when the row of the bound is below its right-hand side. -/
theorem weigh_bound_le_iff {j : ℕ} {v : Variable ℚ} {u : ℚ} (hv : p.vars[j]? = some v) (hu : v.upper = some u) :
    weigh (boundRow p.vars.length j (u - v.lower)).coefficients z ≤
        (boundRow p.vars.length j (u - v.lower)).rhs ↔ v.lower + z j ≤ u := by
  rw [bound_row h hv hu]
  simp only [weigh_indicator (List.getElem?_eq_some_iff.mp hv).1]
  exact le_sub_iff_add_le'

/-- **The points that are attempted, in the shifted quantities.** -/
theorem attempt_corner_iff : p.Attempt ((ofProgram p).corner z) ↔
    (∀ j < (ofProgram p).variableCount, 0 ≤ z j) ∧ (ofProgram p).Short z := by
  rw [variableCount_ofProgram]
  constructor
  · rintro ⟨within, respects⟩
    have bounds := within_corner_iff.mp within
    refine ⟨fun j hj => (bounds j _ (List.getElem?_eq_getElem hj)).1, fun r mem => ?_⟩
    obtain ⟨i, hr⟩ := List.getElem?_of_mem mem
    obtain ⟨c, hc, rfl⟩ | ⟨-, j, v, u, hv, hu, rfl⟩ := row_cases hr
    · have hc := List.mem_of_getElem? hc
      exact (respects_corner_iff h hc).mp (respects c hc)
    · exact fun _ => (weigh_bound_le_iff h hv hu).mpr ((bounds j v hv).2 u hu)
  · rintro ⟨nonneg, short⟩
    refine ⟨within_corner_iff.mpr fun j v hv => ?_, fun c hc => ?_⟩
    · obtain ⟨inside, -⟩ := List.getElem?_eq_some_iff.mp hv
      refine ⟨nonneg j inside, fun u hu => ?_⟩
      obtain ⟨i, -, hr⟩ := exists_bound hv hu
      refine (weigh_bound_le_iff h hv hu).mp (short _ (List.mem_of_getElem? hr) ?_)
      rw [bound_row h hv hu]
      nofun
    · obtain ⟨k, hk⟩ := List.getElem?_of_mem hc
      exact (respects_corner_iff h hc).mpr (short _ (List.mem_of_getElem? (row_constraint hk)))

/-- **At an attempted point the gaps of the rows add up to what it violates.** -/
theorem sum_gap_eq_breach (attempt : p.Attempt ((ofProgram p).corner z)) :
    ((ofProgram p).rows.map (·.gap z)).sum = p.breach ((ofProgram p).corner z) := by
  have constraints : (p.constraints.map (rowOf p)).map (·.gap z) =
      p.constraints.map (·.breach ((ofProgram p).corner z)) := by
    rw [List.map_map]
    exact List.map_congr_left fun c hc => gap_rowOf h hc (attempt.respects c hc)
  rw [rows_ofProgram, List.map_append, List.sum_append, constraints, Program.breach, add_eq_left]
  -- the row of a bound has no artificial column
  refine List.sum_eq_zero fun gap mem => ?_
  obtain ⟨r, hr, rfl⟩ := List.mem_map.mp mem
  obtain ⟨j, v, u, hv, hu, rfl⟩ := mem_bounds.mp hr
  rw [bound_row h hv hu, StandardRow.gap, if_pos rfl]

end Program

end StandardForm

end Simplex

/-! ## What is listed -/

theorem Program.Respects.holds {p : Program ℚ} {c : Constraint ℚ} {x : List ℚ} (respects : p.Respects c x)
    (kept : p.Kept c) : c.Holds x := by
  unfold Respects at respects
  unfold Kept at kept
  unfold Constraint.Holds
  cases kind : c.relation with
  | atMost =>
    rw [kind] at respects kept
    exact respects kept
  | atLeast =>
    rw [kind] at respects kept
    exact respects kept
  | equal =>
    rw [kind] at kept
    exact kept.elim

theorem Constraint.Holds.breach_eq {c : Constraint ℚ} {x : List ℚ} (holds : c.Holds x) : c.breach x = 0 := by
  unfold Holds at holds
  unfold breach
  cases kind : c.relation with
  | atMost =>
    rw [kind] at holds
    exact max_eq_left (sub_nonpos.mpr holds)
  | atLeast =>
    rw [kind] at holds
    exact max_eq_left (sub_nonpos.mpr holds)
  | equal =>
    rw [kind] at holds
    exact abs_eq_zero.mpr (sub_eq_zero.mpr holds.symm)

/-- The breach of a violated constraint is the amount that is reported. -/
theorem Constraint.breach_of_not_holds {c : Constraint ℚ} {x : List ℚ} (violated : ¬c.Holds x) :
    c.breach x = (c.violation x).amount := by
  unfold Holds at violated
  simp only [breach, violation, slack, Scalar.abs_rat]
  cases kind : c.relation with
  | atMost =>
    rw [kind] at violated
    have above : c.limit < c.consumed x := not_le.mp violated
    simp only
    rw [max_eq_right (sub_nonneg.mpr above.le), abs_sub_comm, abs_of_pos (sub_pos.mpr above)]
  | atLeast =>
    rw [kind] at violated
    have below : c.consumed x < c.limit := not_le.mp violated
    simp only
    rw [max_eq_right (sub_nonneg.mpr below.le), abs_sub_comm, abs_of_pos (sub_pos.mpr below)]
  | equal => rfl

namespace Program

variable {p : Program ℚ} {x : List ℚ}

/-- **What is listed adds up to what the point violates.** -/
theorem sum_violations : ((p.violations x 0).map (·.amount)).sum = p.breach x := by
  rw [violations, ((Violation.perm_sort _).map _).sum_eq, List.map_map, ← List.filterMap_eq_filter,
    sum_map_filterMap, breach]
  congr 1
  apply List.map_congr_left
  intro c _
  by_cases holds : c.Holds x
  · simp [Option.guard, (c.satisfied_zero_iff x).mpr holds, holds.breach_eq]
  · simp [Option.guard, mt (c.satisfied_zero_iff x).mp holds, Constraint.breach_of_not_holds holds]

/-- No kept inequality is listed at an attempted point. -/
theorem Attempt.not_kept (h : p.WellFormed) (attempt : p.Attempt x) {v : Violation ℚ} (hv : v ∈ p.violations x 0)
    {c : Constraint ℚ} (hc : c ∈ p.constraints) (same : c.label = v.label) : ¬p.Kept c := by
  intro kept
  obtain ⟨d, hd, violated, rfl⟩ := mem_violations.mp hv
  obtain rfl := List.inj_on_of_nodup_map h.labels hc hd same
  have holds := (c.satisfied_zero_iff x).mpr ((attempt.respects c hc).holds kept)
  rw [holds] at violated
  cases violated

end Program

namespace Simplex

open StandardForm

/-- **The diagnosis of an infeasible program is least infeasible**, for every valid program, when the
tolerances are zero and no quantity is taken for dust. -/
theorem infeasible_least (s : SolverSettings ℚ) (p : Program ℚ) (valid : p.flaw? = none)
    (sharp : s.pivotTolerance = 0) (binding : s.bindingTolerance = 0)
    (infeasible : (solve s p).status = .infeasible)
    (dustless : (ofProgram p).Dustless ((ofProgram p).firstRun s).tableau) :
    p.LeastInfeasible (solve s p).violations := by
  have h := p.flaw?_eq_none_iff.mp valid
  have proper := ofProgram_proper h
  obtain ⟨t, pivots, start⟩ := start_of_infeasible infeasible
  have listed := violations_of_start_infeasible start
  obtain ⟨optimal, positive⟩ := residual_of_start_infeasible proper sharp binding start
  obtain rfl := tableau_of_start_infeasible start
  have sound := firstRun_sound (s := s) proper sharp.ge
  have nonneg := sound.canonical.vertex_nonneg (firstRun_feasible proper sharp)
  obtain ⟨short, gap, least⟩ := residual_least proper sharp optimal
  have attempt := (attempt_corner_iff h).mpr ⟨fun j _ => nonneg j, short⟩
  rw [point_of_dustless sound.canonical dustless, binding] at listed
  rw [sum_gap_eq_breach h attempt] at gap
  refine ⟨⟨_, attempt, listed⟩, ?_, ⟨⟨_, attempt, ?_⟩, ?_⟩, ?_⟩
  · rwa [listed, Program.sum_violations, gap]
  · rw [listed, Program.sum_violations]
  · rintro total ⟨x, other, rfl⟩
    have restored := corner_shifted_of_within other.within
    rw [← restored] at other ⊢
    obtain ⟨nonneg, short⟩ := (attempt_corner_iff h).mp other
    rw [listed, Program.sum_violations, gap, ← sum_gap_eq_breach h other]
    exact least _ nonneg short
  · rw [listed]
    exact fun v hv c hc same => attempt.not_kept h hv hc same

/-- A program that asks for more of the second quantity than there is room for. Its maximum and its minimum
with a negative limit are kept, the two other constraints are not. -/
def crowded : Program ℚ where
  vars := [⟨"x", 1, some 3⟩, ⟨"y", 0, none⟩]
  objective := ⟨.maximize, [1, 1]⟩
  constraints := [⟨"together", [1, 1], .atMost, 4⟩, ⟨"spare", [-1, 0], .atLeast, -2⟩,
    ⟨"y min", [0, 1], .atLeast, 5⟩, ⟨"gap", [1, -1], .equal, -6⟩]

theorem infeasible_least_crowded : (crowded.flaw? = none ∧ (solve ⟨100, 0, 0⟩ crowded).status = .infeasible ∧
      (ofProgram crowded).Dustless ((ofProgram crowded).firstRun ⟨100, 0, 0⟩).tableau) ∧
    crowded.LeastInfeasible (solve ⟨100, 0, 0⟩ crowded).violations := by
  have valid : crowded.flaw? = none := by decide +kernel
  have infeasible : (solve ⟨100, 0, 0⟩ crowded).status = .infeasible := by decide +kernel
  have dustless : (ofProgram crowded).Dustless ((ofProgram crowded).firstRun ⟨100, 0, 0⟩).tableau := by
    decide +kernel
  exact ⟨⟨valid, infeasible, dustless⟩, infeasible_least ⟨100, 0, 0⟩ crowded valid rfl rfl infeasible dustless⟩

/-- The room for the second quantity is three, two short of its minimum and four of the equality. -/
example : (solve ⟨100, 0, 0⟩ crowded).violations.map (fun v => (v.label, v.amount)) = [("gap", 4), ("y min", 2)] := by
  decide +kernel

end Simplex

end Allotment
