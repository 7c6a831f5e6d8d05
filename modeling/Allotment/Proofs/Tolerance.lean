import Allotment.Proofs.Simplex.Outcome

/-!
# Optima under tolerances

With tolerances the reported optimum need not satisfy the constraints: a row whose entry in the
entering column is no more than the pivot tolerance does not limit it, however far the column goes
(`overshooting`). What remains true is an equivalence. The last tableau still has the solutions of
the first one, so the point is feasible up to a tolerance exactly when that tableau is `Steady`: its
quantities, and what its slack, surplus and artificial columns leave in each row, stray from zero by
no more than the tolerance on the forbidden side.
-/

namespace Allotment
set_option autoImplicit false

namespace Simplex

namespace StandardForm

/-- What the part of a slot and the dust leave between the two sides of a row, at the reported point. -/
def remainder (t : Tableau ℚ) (r : StandardRow ℚ) (slot : Slot) : ℚ :=
  slot.part t.vertex + weigh r.coefficients fun j => t.vertex j - snap (t.vertex j)

/-- **A last tableau that has not strayed** beyond a tolerance. -/
structure Steady (f : StandardForm ℚ) (t : Tableau ℚ) (tolerance : ℚ) : Prop where
  quantities : ∀ j < f.variableCount, -tolerance ≤ snap (t.vertex j)
  rows : ∀ (i : ℕ) (r : StandardRow ℚ) (slot : Slot), f.rows[i]? = some r → f.slots[i]? = some slot →
    r.relation.Allows tolerance (remainder t r slot)

section

variable {p : Program ℚ} (h : p.WellFormed) {z : ℕ → ℚ} {tolerance : ℚ}
include h

/-- A constraint is satisfied up to a tolerance when its row is. -/
theorem satisfied_corner_iff {c : Constraint ℚ} (hc : c ∈ p.constraints) :
    c.satisfied ((ofProgram p).corner z) tolerance = true ↔ (rowOf p c).relation.Allows tolerance
      ((rowOf p c).rhs - weigh (rowOf p c).coefficients z) := by
  rw [c.satisfied_iff, rhs_sub_weigh_rowOf h hc, rowOf]
  obtain ⟨scale, same⟩ | ⟨scale, flipped⟩ := StandardRow.normalize_cases c.coefficients c.relation
    (c.limit - dot c.coefficients (ofProgram p).lower)
  · rw [scale, same, one_mul]
  · rw [scale, flipped, neg_one_mul, Relation.allows_flip_neg]

/-- A variable is below its upper bound up to a tolerance when the row of the bound is. -/
theorem bound_allows_iff {j : ℕ} {v : Variable ℚ} {u : ℚ} (hv : p.vars[j]? = some v)
    (hu : v.upper = some u) : (boundRow p.vars.length j (u - v.lower)).relation.Allows tolerance
      ((boundRow p.vars.length j (u - v.lower)).rhs -
        weigh (boundRow p.vars.length j (u - v.lower)).coefficients z) ↔ v.lower + z j ≤ u + tolerance := by
  obtain ⟨inside, -⟩ := List.getElem?_eq_some_iff.mp hv
  rw [bound_row h hv hu]
  simp only [weigh_indicator inside, Relation.Allows]
  constructor
  · intro le
    linarith
  · intro le
    linarith

/-- **Feasibility up to a tolerance, in the shifted quantities.** -/
theorem feasible_corner_tolerance_iff : p.feasible ((ofProgram p).corner z) tolerance = true ↔
    (∀ j < (ofProgram p).variableCount, -tolerance ≤ z j) ∧
      ∀ (i : ℕ) (r : StandardRow ℚ), (ofProgram p).rows[i]? = some r →
        r.relation.Allows tolerance (r.rhs - weigh r.coefficients z) := by
  rw [Program.feasible_iff, forall₂_corner_iff]
  simp only [Variable.admits_iff]
  constructor
  · rintro ⟨quantities, constraints⟩
    refine ⟨fun j hj => ?_, fun i r hr => ?_⟩
    · rw [variableCount_ofProgram] at hj
      linarith [(quantities j _ (List.getElem?_eq_getElem hj)).1]
    · obtain ⟨c, hc, rfl⟩ | ⟨-, j, v, u, hv, hu, rfl⟩ := row_cases hr
      · have mem := List.mem_of_getElem? hc
        exact (satisfied_corner_iff h mem).mp (constraints c mem)
      · exact (bound_allows_iff h hv hu).mpr ((quantities j v hv).2 u hu)
  · rintro ⟨quantities, rows⟩
    refine ⟨fun j v hv => ⟨?_, fun u hu => ?_⟩, fun c hc => ?_⟩
    · obtain ⟨inside, -⟩ := List.getElem?_eq_some_iff.mp hv
      linarith [quantities j (variableCount_ofProgram (p := p) ▸ inside)]
    · obtain ⟨i, -, hi⟩ := exists_bound hv hu
      exact (bound_allows_iff h hv hu).mp (rows i _ hi)
    · obtain ⟨k, hk⟩ := List.getElem?_of_mem hc
      exact (satisfied_corner_iff h hc).mpr (rows k _ (row_constraint hk))

/-- What a row leaves at the reported point, of any tableau with the solutions of the first one. -/
theorem rhs_sub_weigh_snap {t : Tableau ℚ} (solves : (ofProgram p).tableau.Solves t.vertex) {i : ℕ}
    {r : StandardRow ℚ} {slot : Slot} (hr : (ofProgram p).rows[i]? = some r)
    (hs : (ofProgram p).slots[i]? = some slot) :
    r.rhs - weigh r.coefficients (fun j => snap (t.vertex j)) = remainder t r slot := by
  have balance := (solves_tableau_iff (ofProgram_proper h) _).mp solves i r slot hr hs
  have dust := weigh_sub r.coefficients t.vertex fun j => snap (t.vertex j)
  unfold remainder
  change _ = _ + weigh r.coefficients (t.vertex - fun j => snap (t.vertex j))
  rw [dust]
  linarith

/-- **The reported point is feasible up to a tolerance exactly when the tableau is steady.** -/
theorem feasible_point_iff {t : Tableau ℚ}
    (sound : Tableau.Sound (ofProgram p).tableau (ofProgram p).columnCount t) :
    p.feasible ((ofProgram p).point t) tolerance = true ↔ (ofProgram p).Steady t tolerance := by
  have solves := (sound.equivalent.solves_iff _).mp sound.canonical.solves_vertex
  rw [point_eq sound.canonical, feasible_corner_tolerance_iff h]
  constructor
  · rintro ⟨quantities, rows⟩
    refine ⟨quantities, fun i r slot hr hs => ?_⟩
    rw [← rhs_sub_weigh_snap h solves hr hs]
    exact rows i r hr
  · rintro ⟨quantities, rows⟩
    refine ⟨quantities, fun i r hr => ?_⟩
    obtain ⟨slot, hs⟩ := exists_slot (List.getElem?_eq_some_iff.mp hr).1
    rw [rhs_sub_weigh_snap h solves hr hs]
    exact rows i r slot hr hs

end

end StandardForm

open StandardForm

/-- **When the reported optimum is feasible up to a tolerance**, for every valid program and all
settings: exactly when the tableau that it is read off is steady. -/
theorem feasible_optimum_iff (s : SolverSettings ℚ) (p : Program ℚ) (valid : p.flaw? = none)
    (nonneg : 0 ≤ s.pivotTolerance) (optimal : (solve s p).status = .optimal) (tolerance : ℚ) :
    ∃ run ∈ finalRun? s p, run.stop = .optimal ∧
      (p.feasible (solve s p).values tolerance = true ↔ (ofProgram p).Steady run.tableau tolerance) := by
  have h := p.flaw?_eq_none_iff.mp valid
  obtain ⟨run, hrun, stop, solution⟩ := exists_run_of_optimal optimal
  refine ⟨run, hrun, stop, ?_⟩
  have values : (solve s p).values = (ofProgram p).point run.tableau := by
    rw [solution]
    rfl
  obtain ⟨t, pivots, start, rfl⟩ := finalRun?_eq_some.mp hrun
  rw [values]
  exact feasible_point_iff h ((start_sound (ofProgram_proper h) nonneg start).run nonneg _ _)

/-- A program whose one constraint has an entry below the pivot tolerance. -/
def overshooting : Program ℚ where
  vars := [⟨"x", 0, some 1e12⟩]
  objective := ⟨.maximize, [1]⟩
  constraints := [⟨"c", [1e-10], .atMost, 1⟩]

theorem feasible_optimum_overshooting : (overshooting.flaw? = none ∧
      0 ≤ (SolverSettings.default : SolverSettings ℚ).pivotTolerance ∧
      (solve .default overshooting).status = .optimal) ∧
    ∃ run ∈ finalRun? .default overshooting, run.stop = .optimal ∧
      (overshooting.feasible (solve .default overshooting).values 1e-6 = true ↔
        (ofProgram overshooting).Steady run.tableau 1e-6) := by
  have valid : overshooting.flaw? = none := by decide +kernel
  have nonneg : 0 ≤ (SolverSettings.default : SolverSettings ℚ).pivotTolerance := by decide +kernel
  have optimal : (solve .default overshooting).status = .optimal := by decide +kernel
  exact ⟨⟨valid, nonneg, optimal⟩, feasible_optimum_iff .default overshooting valid nonneg optimal 1e-6⟩

/-- **An optimum that violates a constraint**: the column goes as far as its upper bound, a hundred
times what the constraint allows. -/
theorem optimum_overshoots : overshooting.flaw? = none ∧
    (solve .default overshooting).status = .optimal ∧ (solve .default overshooting).values = [1e12] ∧
    overshooting.feasible (solve .default overshooting).values 1e-6 = false := by
  decide +kernel

end Simplex

end Allotment
