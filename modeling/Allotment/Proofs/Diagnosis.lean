import Allotment.Proofs.Prices
import Allotment.Proofs.Tolerance

/-!
# When an infeasible program comes with a diagnosis

The verdict is given on what the artificial columns add up to, the diagnosis on each constraint by
itself, with one tolerance for both. So a program may be infeasible without a violation
(`overlooked_infeasible`): it is when every constraint is `Overlooked`, what its own columns and the
dust leave in it being within the tolerance. A diagnosis is certain without tolerances, and also
where the artificial columns add up to more than the tolerance allows one by one, since then some
column alone is above it: the surplus that could make up for an artificial column is not used when
that column is.
-/

namespace Allotment
set_option autoImplicit false

section

variable {α : Type} [Scalar α]

theorem Violation.perm_insert (v : Violation α) (vs : List (Violation α)) : (v.insert vs).Perm (v :: vs) := by
  induction vs with
  | nil => exact .refl _
  | cons w rest ih =>
    unfold insert
    split
    · exact .refl _
    · exact (ih.cons w).trans (.swap v w rest)

/-- **Sorting violations only changes their order.** -/
theorem Violation.perm_sort (vs : List (Violation α)) : (sort vs).Perm vs := by
  induction vs with
  | nil => exact .refl _
  | cons v vs ih => exact (v.perm_insert (sort vs)).trans (ih.cons v)

/-- **Listed are the constraints that are not satisfied.** -/
theorem Program.mem_violations {p : Program α} {point : List α} {tolerance : α} {v : Violation α} :
    v ∈ p.violations point tolerance ↔
      ∃ c ∈ p.constraints, c.satisfied point tolerance = false ∧ c.violation point = v := by
  rw [violations, (Violation.perm_sort _).mem_iff]
  simp only [List.mem_map, List.mem_filter, Bool.not_eq_true', and_assoc]

/-- **No violation is listed when every constraint is satisfied**, and only then. -/
theorem Program.violations_eq_nil_iff (p : Program α) (point : List α) (tolerance : α) :
    p.violations point tolerance = [] ↔ ∀ c ∈ p.constraints, c.satisfied point tolerance = true := by
  rw [violations, ← List.length_eq_zero_iff, (Violation.perm_sort _).length_eq, List.length_eq_zero_iff,
    List.map_eq_nil_iff, List.filter_eq_nil_iff]
  simp

end

namespace Simplex

theorem Tableau.Canonical.lhs_eq_zero {t u : Tableau ℚ} {n : ℕ} (h : t.Canonical n)
    (same : ∀ z, t.Solves z ↔ u.Solves z) {w : ℕ → ℚ} (null : ∀ q ∈ u.rows, q.lhs w = 0) {r : Row ℚ}
    (hr : r ∈ t.rows) : r.lhs w = 0 := by
  have here := h.solves_vertex
  have moved := (same _).mpr (((same _).mp here).add null) r hr
  rwa [Line.excess_add_point, here r hr, zero_add] at moved

namespace StandardForm

variable {f : StandardForm ℚ} {s : SolverSettings ℚ} {t : Tableau ℚ} {i : ℕ}

theorem tableau_of_start_infeasible {pivots : ℕ} (h : f.start s = .infeasible t pivots) :
    t = (f.firstRun s).tableau := by
  have some : 0 < f.artificialCount := artificialCount_pos (s := s) (by simp [h])
  exact ((start_eq_infeasible_iff some).mp h).2.1

/-- **The surplus column of a row is not used when its artificial column is.** -/
theorem vertex_surplus (proper : f.Proper) (canonical : t.Canonical f.columnCount)
    (same : ∀ z, t.Solves z ↔ f.tableau.Solves z) {c a : ℕ} (hs : f.slots[i]? = some (.surplus c a))
    (used : t.vertex a ≠ 0) : t.vertex c = 0 := by
  have mem := List.mem_of_getElem? hs
  have slack := slackColumn_bounds mem rfl
  have artificial := artificialColumn_bounds mem rfl
  obtain ⟨r, hr, rfl⟩ : ∃ r ∈ t.rows, r.basic = a :=
    Tableau.mem_basis.mp (by_contra fun free => used (Tableau.vertex_of_not_mem free))
  -- the row of the artificial column has minus one in the surplus column, so that one is not basic
  have opposite := canonical.lhs_eq_zero same (fun q hq => lhs_surplus_pair_eq_zero proper hs hq) hr
  rw [lhs_surplus_pair, canonical.entry_self hr] at opposite
  refine Tableau.vertex_of_not_mem fun basic => ?_
  obtain ⟨q, hq, rfl⟩ := Tableau.mem_basis.mp basic
  rw [canonical.entry_basic hr hq (by omega)] at opposite
  norm_num at opposite

/-- Of artificial columns that add up to more than a tolerance each, some one is above it. -/
theorem exists_artificial_above (canonical : t.Canonical f.columnCount) {tolerance : ℚ}
    (large : f.artificialCount * tolerance < f.residual t) :
    ∃ a, f.artificialStart ≤ a ∧ a < f.columnCount ∧ tolerance < t.vertex a := by
  rw [residual_eq canonical, shortfall] at large
  have total : ∑ _j ∈ Finset.Ico f.artificialStart f.columnCount, tolerance = f.artificialCount * tolerance := by
    rw [Finset.sum_const, Nat.card_Ico, nsmul_eq_mul, columnCount, Nat.add_sub_cancel_left]
  obtain ⟨a, mem, above⟩ := Finset.exists_lt_of_sum_lt (total.trans_lt large)
  exact ⟨a, (Finset.mem_Ico.mp mem).1, (Finset.mem_Ico.mp mem).2, above⟩

theorem exists_slot_of_artificial {a : ℕ} (low : f.artificialStart ≤ a) (high : a < f.columnCount) :
    ∃ (i : ℕ) (slot : Slot), f.slots[i]? = some slot ∧ slot.artificialColumn? = some a := by
  have mem : a ∈ f.slots.filterMap Slot.artificialColumn? := by
    rw [artificialColumns_slots, List.mem_range'_1]
    exact ⟨low, high⟩
  obtain ⟨slot, mem, column⟩ := List.mem_filterMap.mp mem
  obtain ⟨i, hi⟩ := List.getElem?_of_mem mem
  exact ⟨i, slot, hi, column⟩

/-- Without dust a row leaves what its own columns hold. -/
theorem remainder_of_dustless (proper : f.Proper) (canonical : t.Canonical f.columnCount)
    (dustless : f.Dustless t) {r : StandardRow ℚ} (hr : f.rows[i]? = some r) (slot : Slot) :
    remainder t r slot = slot.part t.vertex := by
  have dust : weigh r.coefficients (fun j => t.vertex j - snap (t.vertex j)) = weigh r.coefficients 0 := by
    refine weigh_congr fun j hj => ?_
    rw [proper.rows r (List.mem_of_getElem? hr)] at hj
    rw [snap_vertex_of_dustless canonical dustless hj, sub_self, Pi.zero_apply]
  rw [remainder, dust, weigh_zero, add_zero]

section Program

variable {p : Program ℚ}

/-- **Constraints that a diagnosis overlooks**: what is left in each of them is within the tolerance. -/
def Overlooked (p : Program ℚ) (t : Tableau ℚ) (tolerance : ℚ) : Prop :=
  ∀ (k : ℕ) (c : Constraint ℚ) (slot : Slot), p.constraints[k]? = some c →
    (ofProgram p).slots[k]? = some slot → (rowOf p c).relation.Allows tolerance (remainder t (rowOf p c) slot)

/-- The row of an upper bound has a slack. -/
theorem slot_of_bound (h : p.WellFormed) {j : ℕ} {v : Variable ℚ} {u : ℚ} {slot : Slot}
    (hv : p.vars[j]? = some v) (hu : v.upper = some u)
    (hi : (ofProgram p).rows[i]? = some (boundRow p.vars.length j (u - v.lower)))
    (hs : (ofProgram p).slots[i]? = some slot) : ∃ column, slot = .slack column := by
  have relation := slot_relation hi hs
  rw [bound_row h hv hu] at relation
  cases slot with
  | slack column => exact ⟨column, rfl⟩
  | surplus _ _ => cases relation
  | artificial _ => cases relation

variable (h : p.WellFormed) (canonical : t.Canonical (ofProgram p).columnCount)
  (same : ∀ z, t.Solves z ↔ (ofProgram p).tableau.Solves z)
include h canonical same

theorem violations_point_eq_nil_iff (tolerance : ℚ) :
    p.violations ((ofProgram p).point t) tolerance = [] ↔ Overlooked p t tolerance := by
  have solves := (same _).mp canonical.solves_vertex
  rw [Program.violations_eq_nil_iff, point_eq canonical]
  constructor
  · intro all k c slot hc hs
    rw [← rhs_sub_weigh_snap h solves (row_constraint hc) hs]
    exact (satisfied_corner_iff h (List.mem_of_getElem? hc)).mp (all c (List.mem_of_getElem? hc))
  · intro overlooked c hc
    obtain ⟨k, hk⟩ := List.getElem?_of_mem hc
    obtain ⟨slot, hs⟩ := exists_slot (List.getElem?_eq_some_iff.mp (row_constraint hk)).1
    rw [satisfied_corner_iff h hc, rhs_sub_weigh_snap h solves (row_constraint hk) hs]
    exact overlooked k c slot hk hs

/-- **An artificial column above the tolerance is not overlooked.** -/
theorem not_overlooked (dustless : (ofProgram p).Dustless t) {tolerance : ℚ} (tolerant : 0 ≤ tolerance)
    (large : (ofProgram p).artificialCount * tolerance < (ofProgram p).residual t) :
    ¬Overlooked p t tolerance := by
  intro overlooked
  have proper := ofProgram_proper h
  obtain ⟨a, low, high, above⟩ := exists_artificial_above canonical large
  obtain ⟨i, slot, hs, column⟩ := exists_slot_of_artificial low high
  have inside : i < (ofProgram p).rows.length := length_slots ▸ (List.getElem?_eq_some_iff.mp hs).1
  obtain ⟨c, hc, row⟩ | ⟨-, j, v, u, hv, hu, row⟩ := row_cases (List.getElem?_eq_getElem inside)
  · have allowed := overlooked i c slot hc hs
    have relation := slot_relation (row_constraint hc) hs
    rw [remainder_of_dustless proper canonical dustless (row_constraint hc), ← relation] at allowed
    cases slot with
    | slack _ => cases column
    | surplus s _ =>
      cases column
      have unused := vertex_surplus proper canonical same hs (tolerant.trans_lt above).ne'
      simp only [Slot.relation, Relation.Allows, Slot.part, unused, sub_zero] at allowed
      exact absurd allowed above.not_ge
    | artificial _ =>
      cases column
      simp only [Slot.relation, Relation.Allows, Slot.part] at allowed
      exact absurd ((le_abs_self _).trans allowed) above.not_ge
  · obtain ⟨_, rfl⟩ := slot_of_bound h hv hu (row ▸ List.getElem?_eq_getElem inside) hs
    cases column

end Program

end StandardForm

open StandardForm

theorem violations_of_start_infeasible {s : SolverSettings ℚ} {p : Program ℚ} {t : Tableau ℚ} {pivots : ℕ}
    (h : (ofProgram p).start s = .infeasible t pivots) :
    (solve s p).violations = p.violations ((ofProgram p).point t) s.bindingTolerance := by
  rw [solve_of_start_infeasible h]
  rfl

/-- The attempt that an infeasible program is diagnosed at is within the bounds. -/
theorem within_point_firstRun {s : SolverSettings ℚ} {p : Program ℚ} (h : p.WellFormed)
    (sharp : s.pivotTolerance = 0) : p.Within ((ofProgram p).point ((ofProgram p).firstRun s).tableau) := by
  have proper := ofProgram_proper h
  have sound := firstRun_sound (s := s) proper sharp.ge
  have nonneg := sound.canonical.vertex_nonneg (firstRun_feasible proper sharp)
  have solves := (sound.equivalent.solves_iff _).mp sound.canonical.solves_vertex
  rw [point_eq sound.canonical, within_corner_iff]
  intro j v hv
  have start : 0 ≤ snap (((ofProgram p).firstRun s).tableau.vertex j) ∧
      snap (((ofProgram p).firstRun s).tableau.vertex j) ≤ ((ofProgram p).firstRun s).tableau.vertex j := by
    rw [snap_rat]
    split
    · exact ⟨le_rfl, nonneg j⟩
    · exact ⟨nonneg j, le_rfl⟩
  refine ⟨start.1, fun u hu => ?_⟩
  obtain ⟨inside, -⟩ := List.getElem?_eq_some_iff.mp hv
  obtain ⟨i, -, hi⟩ := exists_bound hv hu
  obtain ⟨slot, hs⟩ := exists_slot (List.getElem?_eq_some_iff.mp hi).1
  obtain ⟨column, rfl⟩ := slot_of_bound h hv hu hi hs
  have balance := (solves_tableau_iff proper _).mp solves i _ _ hi hs
  rw [bound_row h hv hu] at balance
  simp only [weigh_indicator inside, Slot.part] at balance
  have unused := nonneg column
  linarith [start.2]

/-- **When an infeasible program comes with a violation**, for every valid program and all settings
whose tolerances are not negative: unless the last attempt overlooks every constraint. It does not
without tolerances, nor when no quantity is taken for dust and the artificial columns that are left
add up to more than one tolerance each. -/
theorem infeasible_diagnosis (s : SolverSettings ℚ) (p : Program ℚ) (valid : p.flaw? = none)
    (nonneg : 0 ≤ s.pivotTolerance) (tolerant : 0 ≤ s.bindingTolerance)
    (infeasible : (solve s p).status = .infeasible) :
    ∃ t pivots, (ofProgram p).start s = .infeasible t pivots ∧
      ((solve s p).violations = [] ↔ Overlooked p t s.bindingTolerance) ∧
      (s.pivotTolerance = 0 → s.bindingTolerance = 0 → (solve s p).violations ≠ []) ∧
      ((ofProgram p).Dustless t →
        (ofProgram p).artificialCount * s.bindingTolerance < (ofProgram p).residual t →
        (solve s p).violations ≠ []) := by
  have h := p.flaw?_eq_none_iff.mp valid
  obtain ⟨t, pivots, start⟩ := start_of_infeasible infeasible
  obtain rfl := tableau_of_start_infeasible start
  have sound := firstRun_sound (s := s) (ofProgram_proper h) nonneg
  have listed := violations_of_start_infeasible start
  have overlooked := violations_point_eq_nil_iff h sound.canonical sound.equivalent.solves_iff
    s.bindingTolerance
  rw [← listed] at overlooked
  refine ⟨_, pivots, start, overlooked, fun sharp binding none => ?_, fun dustless large none => ?_⟩
  · rw [listed, binding, Program.violations_eq_nil_iff] at none
    exact not_feasible_of_infeasible h sharp binding infeasible _
      ⟨within_point_firstRun h sharp, fun c hc => (c.satisfied_zero_iff _).mp (none c hc)⟩
  · exact not_overlooked h sound.canonical sound.equivalent.solves_iff dustless tolerant large
      (overlooked.mp none)

/-- A program with two minimums that are out of reach by a little more than half of the binding
tolerance. -/
def narrowlyMissed : Program ℚ where
  vars := [⟨"x", 0, some 5⟩, ⟨"y", 0, some 5⟩]
  objective := ⟨.maximize, [1, 1]⟩
  constraints := [⟨"x min", [1, 0], .atLeast, 5.0000006⟩, ⟨"y min", [0, 1], .atLeast, 5.0000006⟩]

theorem infeasible_diagnosis_narrowlyMissed : (narrowlyMissed.flaw? = none ∧
      0 ≤ (SolverSettings.default : SolverSettings ℚ).pivotTolerance ∧
      0 ≤ (SolverSettings.default : SolverSettings ℚ).bindingTolerance ∧
      (solve .default narrowlyMissed).status = .infeasible) ∧
    ∃ t pivots, (ofProgram narrowlyMissed).start .default = .infeasible t pivots ∧
      ((solve .default narrowlyMissed).violations = [] ↔
        Overlooked narrowlyMissed t (SolverSettings.default : SolverSettings ℚ).bindingTolerance) := by
  have valid : narrowlyMissed.flaw? = none := by decide +kernel
  have nonneg : 0 ≤ (SolverSettings.default : SolverSettings ℚ).pivotTolerance := by decide +kernel
  have tolerant : 0 ≤ (SolverSettings.default : SolverSettings ℚ).bindingTolerance := by decide +kernel
  have infeasible : (solve .default narrowlyMissed).status = .infeasible := by decide +kernel
  obtain ⟨t, pivots, start, overlooked, -⟩ :=
    infeasible_diagnosis .default narrowlyMissed valid nonneg tolerant infeasible
  exact ⟨⟨valid, nonneg, tolerant, infeasible⟩, t, pivots, start, overlooked⟩

/-- **An infeasible program without a violation**: each minimum is missed by less than the tolerance,
the two together by more. -/
theorem overlooked_infeasible : narrowlyMissed.flaw? = none ∧
    (solve .default narrowlyMissed).status = .infeasible ∧ (solve .default narrowlyMissed).violations = [] := by
  decide +kernel

end Simplex

end Allotment
