import Allotment.Proofs.Prices

/-!
# Optima are vertices

A tableau pins its vertex down. The columns off the basis are zero there, and where two points without
negative quantities have the vertex half-way between them these columns are zero at both, which leaves
one solution (`Ready.eq_vertex_of_halfway`). So the optimum that is read off a last tableau is no
mixture of other feasible points, also when a redundant equality keeps its artificial column in the
basis to the end: that column is zero at every point of the program. What is not basic is at its lower
bound.
-/

namespace Allotment
set_option autoImplicit false

/-- The point half-way between two points. -/
def halfway (x y : List ℚ) : List ℚ := List.zipWith (fun a b => (a + b) / 2) x y

/-- **Vertices of the feasible region**: feasible points that are not half-way between two others. -/
structure Program.IsVertex (p : Program ℚ) (x : List ℚ) : Prop where
  feasible : p.Feasible x
  extreme : ∀ y z, p.Feasible y → p.Feasible z → halfway y z = x → y = z

namespace Simplex

open StandardForm

namespace StandardForm

variable {f : StandardForm ℚ} {t : Tableau ℚ} {z w : ℕ → ℚ} {j : ℕ}

/-- Every column between those of the variables and the artificial ones belongs to a row. -/
theorem exists_slackColumn (lo : f.variableCount ≤ j) (hi : j < f.artificialStart) :
    ∃ (i : ℕ) (slot : Slot), f.slots[i]? = some slot ∧ slot.slackColumn? = some j := by
  have mem : j ∈ f.slots.filterMap Slot.slackColumn? := by
    rw [slackColumns_slots, List.mem_range'_1]
    exact ⟨lo, hi⟩
  obtain ⟨slot, hs, column⟩ := List.mem_filterMap.mp mem
  obtain ⟨i, hi⟩ := List.getElem?_of_mem hs
  exact ⟨i, slot, hi, column⟩

/-- What a slot adds to its row is its slack column, up to a sign, where no artificial one is used. -/
theorem part_eq_of_slackColumn {slot : Slot} (hs : slot ∈ f.slots) (column : slot.slackColumn? = some j) :
    ∃ sign : ℚ, sign ≠ 0 ∧ ∀ z, f.Genuine z → slot.part z = sign * z j := by
  cases slot with
  | slack s =>
    obtain rfl := Option.some.inj column
    exact ⟨1, one_ne_zero, fun z _ => (one_mul _).symm⟩
  | surplus s a =>
    obtain rfl := Option.some.inj column
    obtain ⟨lo, hi⟩ := artificialColumn_bounds hs rfl
    refine ⟨-1, by norm_num, fun z genuine => ?_⟩
    simp only [Slot.part, genuine a lo hi]
    ring
  | artificial a => cases column

/-- **The variables determine a solution** of the first tableau that uses no artificial column. -/
theorem eq_of_solves (proper : f.Proper) (hz : f.tableau.Solves z) (hw : f.tableau.Solves w)
    (gz : f.Genuine z) (gw : f.Genuine w) (same : ∀ j < f.variableCount, z j = w j)
    (hj : j < f.columnCount) : z j = w j := by
  by_cases own : j < f.variableCount
  · exact same j own
  by_cases artificial : f.artificialStart ≤ j
  · rw [gz j artificial hj, gw j artificial hj]
  obtain ⟨i, slot, hs, column⟩ := exists_slackColumn (not_lt.mp own) (not_le.mp artificial)
  obtain ⟨sign, nonzero, part⟩ := part_eq_of_slackColumn (List.mem_of_getElem? hs) column
  have inside : i < f.rows.length := length_slots ▸ (List.getElem?_eq_some_iff.mp hs).1
  have hr := List.getElem?_eq_getElem inside
  have balance := (solves_tableau_iff proper z).mp hz i _ slot hr hs
  have balance' := (solves_tableau_iff proper w).mp hw i _ slot hr hs
  have weighs : weigh f.rows[i].coefficients z = weigh f.rows[i].coefficients w :=
    weigh_congr fun k hk => same k (proper.rows _ (List.getElem_mem inside) ▸ hk)
  rw [part z gz, weighs] at balance
  rw [part w gw] at balance'
  exact mul_left_cancel₀ nonzero (add_left_cancel (balance.trans balance'.symm))

/-- **A solution half-way to which the vertex lies is the vertex.** The points `z` and `w` use no
negative and no artificial quantity, and the variables are half-way between them at the vertex. -/
theorem Ready.eq_vertex_of_halfway (ready : f.Ready t) (proper : f.Proper)
    (hz : f.tableau.Solves z) (hw : f.tableau.Solves w) (nz : ∀ j, 0 ≤ z j) (nw : ∀ j, 0 ≤ w j)
    (gz : ∀ j, f.artificialStart ≤ j → z j = 0) (gw : ∀ j, f.artificialStart ≤ j → w j = 0)
    (half : ∀ j < f.variableCount, (z j + w j) / 2 = t.vertex j) : z = t.vertex := by
  -- the point half-way between them is a solution with the variables of the vertex
  have middle : ∀ j < f.columnCount, (z j + w j) / 2 = t.vertex j := by
    have solves : f.tableau.Solves (fun j => (z j + w j) / 2) := by
      have line : (fun j => (z j + w j) / 2) = (1 / 2 : ℚ) • (z + w) := by
        funext j
        simp only [Pi.smul_apply, Pi.add_apply, smul_eq_mul]
        ring
      intro r hr
      have zero := hz r hr
      have zero' := hw r hr
      rw [Line.excess, sub_eq_zero] at zero zero'
      rw [line, Line.excess, Line.lhs_smul, Line.lhs, weigh_add]
      change 1 / 2 * (r.lhs z + r.lhs w) - r.rhs = 0
      rw [zero, zero']
      ring
    intro j hj
    refine eq_of_solves proper solves ready.solves_vertex (fun k lo _ => ?_) ready.genuine_vertex half hj
    simp only [gz k lo, gw k lo, add_zero, zero_div]
  have canonical := ready.sound.canonical
  refine canonical.eq_vertex ((ready.sound.equivalent.solves_iff z).mpr hz) fun j free => ?_
  by_cases inside : j < f.columnCount
  · have zero := (middle j inside).trans (Tableau.vertex_of_not_mem free)
    linarith [nz j, nw j]
  · exact gz j (artificialStart_le.trans (not_lt.mp inside))

end StandardForm

theorem getElem?_halfway {x y : List ℚ} {j : ℕ} {a b : ℚ} (ha : x[j]? = some a) (hb : y[j]? = some b) :
    (halfway x y)[j]? = some ((a + b) / 2) := by
  rw [halfway, List.getElem?_zipWith, ha, hb]

/-- **The vertex of a tableau is a vertex of the feasible region.** -/
theorem isVertex_corner {p : Program ℚ} {t : Tableau ℚ} (h : p.WellFormed)
    (ready : (ofProgram p).Ready t) : p.IsVertex ((ofProgram p).corner t.vertex) := by
  have proper := ofProgram_proper h
  refine ⟨feasible_vertex h ready, fun y z hy hz half => ?_⟩
  have fromY := corner_shifted_of_within hy.within
  have fromZ := corner_shifted_of_within hz.within
  rw [← fromY] at hy half ⊢
  rw [← fromZ] at hz half ⊢
  obtain ⟨ny, meetsY⟩ := (feasible_corner_iff h).mp hy
  obtain ⟨nz, meetsZ⟩ := (feasible_corner_iff h).mp hz
  -- half-way between the points is half-way between the shifted quantities
  have shifted : ∀ j < (ofProgram p).variableCount,
      ((ofProgram p).shifted y j + (ofProgram p).shifted z j) / 2 = t.vertex j := by
    intro j hj
    have bound : (ofProgram p).lower[j]? = some (ofProgram p).lower[j] := List.getElem?_eq_getElem hj
    have entry : ∀ w, ((ofProgram p).corner w)[j]? = some ((ofProgram p).lower[j] + w j) := fun w => by
      rw [getElem?_corner, bound, Option.map_some]
    have here := getElem?_halfway (entry ((ofProgram p).shifted y)) (entry ((ofProgram p).shifted z))
    rw [half, entry] at here
    linarith [Option.some.inj here]
  have lifted : ∀ j < (ofProgram p).variableCount, ((ofProgram p).lift 0 ((ofProgram p).shifted y) j +
      (ofProgram p).lift 0 ((ofProgram p).shifted z) j) / 2 = t.vertex j := by
    intro j hj
    rw [lift_of_lt hj, lift_of_lt hj, shifted j hj]
  have atY := ready.eq_vertex_of_halfway proper (solves_lift proper meetsY) (solves_lift proper meetsZ)
    (lift_nonneg ny) (lift_nonneg nz) (fun j => lift_of_le) (fun j => lift_of_le) lifted
  refine corner_congr fun j hj => ?_
  have same := congrFun atY j
  rw [lift_of_lt hj] at same
  linarith [shifted j hj]

/-- A variable is flagged when some row of the tableau is solved for it. -/
theorem getElem?_basicFlags {f : StandardForm ℚ} {t : Tableau ℚ} {j : ℕ} (hj : j < f.variableCount) :
    (f.basicFlags t)[j]? = some (decide (j ∈ t.basis)) := by
  have flag : t.rows.any (·.basic == j) = decide (j ∈ t.basis) := by
    rw [Bool.eq_iff_iff, List.any_eq_true, decide_eq_true_iff, Tableau.mem_basis]
    simp only [beq_iff_eq]
  rw [StandardForm.basicFlags, List.getElem?_map, List.getElem?_range hj, Option.map_some, flag]

/-- **The reported optimum is a vertex**: without tolerances, and where no quantity is taken for dust, it
is a feasible point that is not half-way between two others. The variables that are flagged as basic
are those that some row of the last tableau is solved for, and every other one is at its lower bound. -/
theorem solve_isVertex (s : SolverSettings ℚ) (p : Program ℚ) (valid : p.flaw? = none)
    (sharp : s.pivotTolerance = 0) (binding : s.bindingTolerance = 0)
    (optimal : (solve s p).status = .optimal)
    (dustless : ∀ run ∈ finalRun? s p, (ofProgram p).Dustless run.tableau) :
    p.IsVertex (solve s p).values ∧ ∃ run, finalRun? s p = some run ∧
      ∀ (j : ℕ) (v : Variable ℚ), p.vars[j]? = some v →
        (solve s p).basic[j]? = some (decide (j ∈ run.tableau.basis)) ∧
        ((solve s p).basic[j]? = some true ∨
          (solve s p).basic[j]? = some false ∧ (solve s p).values[j]? = some v.lower) := by
  have h := p.flaw?_eq_none_iff.mp valid
  obtain ⟨run, hrun, read⟩ := exists_readOff h sharp binding optimal dustless
  rw [read.values, read.basic]
  refine ⟨isVertex_corner h read.ready, run, hrun, fun j v hv => ?_⟩
  have inside : j < (ofProgram p).variableCount := by
    rw [variableCount_ofProgram]
    exact (List.getElem?_eq_some_iff.mp hv).1
  refine ⟨getElem?_basicFlags inside, ?_⟩
  rw [getElem?_basicFlags inside]
  by_cases basic : j ∈ run.tableau.basis
  · left
    rw [decide_eq_true basic]
  · right
    refine ⟨by rw [decide_eq_false basic], ?_⟩
    rw [getElem?_corner, lower_ofProgram, hv, Tableau.vertex_of_not_mem basic, Option.map_some,
      Option.map_some, add_zero]

/-- Two quantities that add up to two, which is said twice, with at most one and a half of the first: the
second equality keeps its artificial column in the basis to the end. -/
def repeated : Program ℚ where
  vars := [{ name := "x", lower := 0, upper := none }, { name := "y", lower := 0, upper := none },
    { name := "z", lower := 1, upper := none }]
  objective := { sense := .maximize, coefficients := [1, 0, -1] }
  constraints := [{ label := "sum", coefficients := [1, 1, 0], relation := .equal, limit := 2 },
    { label := "twice", coefficients := [2, 2, 0], relation := .equal, limit := 4 },
    { label := "most", coefficients := [1, 0, 0], relation := .atMost, limit := 3 / 2 }]

theorem solve_isVertex_repeated :
    (repeated.flaw? = none ∧ (solve ⟨100, 0, 0⟩ repeated).status = .optimal ∧
      ∀ run ∈ finalRun? ⟨100, 0, 0⟩ repeated, (ofProgram repeated).Dustless run.tableau) ∧
    repeated.IsVertex (solve ⟨100, 0, 0⟩ repeated).values ∧
      ∃ run, finalRun? ⟨100, 0, 0⟩ repeated = some run ∧
        ∀ (j : ℕ) (v : Variable ℚ), repeated.vars[j]? = some v →
          (solve ⟨100, 0, 0⟩ repeated).basic[j]? = some (decide (j ∈ run.tableau.basis)) ∧
          ((solve ⟨100, 0, 0⟩ repeated).basic[j]? = some true ∨
            (solve ⟨100, 0, 0⟩ repeated).basic[j]? = some false ∧
              (solve ⟨100, 0, 0⟩ repeated).values[j]? = some v.lower) := by
  have valid : repeated.flaw? = none := by decide +kernel
  have optimal : (solve ⟨100, 0, 0⟩ repeated).status = .optimal := by decide +kernel
  have dustless : ∀ run ∈ finalRun? ⟨100, 0, 0⟩ repeated,
      (ofProgram repeated).Dustless run.tableau := by decide +kernel
  exact ⟨⟨valid, optimal, dustless⟩,
    solve_isVertex ⟨100, 0, 0⟩ repeated valid rfl rfl optimal dustless⟩

end Simplex

end Allotment
