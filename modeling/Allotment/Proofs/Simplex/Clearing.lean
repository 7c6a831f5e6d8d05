import Allotment.Proofs.Simplex.Moments
import Allotment.Proofs.Vertex

/-!
# Driving artificial columns out

Once the first phase has left nothing on the artificial columns, the rows that are still solved for one
have no right-hand side. A pivot on such a row moves no right-hand side, whatever the sign of the entry
that it is on, and so leaves the vertex where it is (`Emptying.vertex_foldl`). A row that was passed over
for want of an entry stays without one, since clearing a column in which it has none does nothing to it.
So after one pass over the rows, in order, the artificial columns have no part in the tableau any more
(`Cleared`), and no pivot of the second phase gives them one (`driveOut_harmless`).
-/

namespace Allotment.Simplex
set_option autoImplicit false

open StandardForm

namespace StandardForm

/-- **Artificial columns have no part in a tableau**: a row that is solved for one has nothing in any other
column and no right-hand side, so none of them has a quantity at the vertex, and no row that is solved
for one limits a column that may enter. -/
structure Cleared (f : StandardForm ℚ) (t : Tableau ℚ) : Prop where
  settled : ∀ r ∈ t.rows, f.artificialStart ≤ r.basic →
    r.rhs = 0 ∧ ∀ j < f.artificialStart, r.entry j = 0
  unused : ∀ j, f.artificialStart ≤ j → t.vertex j = 0
  candidates : ∀ column < f.artificialStart, ∀ c ∈ t.candidates 0 column, c.basic < f.artificialStart

variable {f : StandardForm ℚ} {t u : Tableau ℚ} {n : ℕ}

theorem cleared_of_settled (canonical : t.Canonical n) (settled : ∀ r ∈ t.rows, f.Settled r) :
    f.Cleared t where
  settled := settled
  unused _ artificial := vertex_artificial canonical settled artificial
  candidates column inside c hc := by
    obtain ⟨i, r, hr, limits, rfl⟩ := Tableau.mem_candidates.mp hc
    -- a settled row that is solved for an artificial column has no entry to limit the column with
    by_contra artificial
    have zero := (settled r (List.mem_of_getElem? hr) (not_lt.mp artificial)).2 column inside
    exact limits zero.le

/-! ## The pass over the rows -/

/-- **One row**: driving its artificial column out leaves the vertex where it is. -/
theorem Emptying.vertex_driveOutRow {next : ℕ} (h : f.Emptying u next t) :
    (f.driveOutRow 0 t next).vertex = t.vertex := by
  obtain ⟨same, -⟩ | ⟨r, column, hr, artificial, inside, beyond, pivot⟩ :=
    driveOutRow_cases (f := f) le_rfl t next
  · rw [same]
  · have zero := h.spent r (List.mem_of_getElem? hr) artificial
    rw [pivot]
    exact h.sound.canonical.vertex_pivot hr (abs_pos.mp beyond) (inside.trans_le artificialStart_le) zero

/-- **The whole pass** leaves the vertex where it is. -/
theorem Emptying.vertex_foldl (h : f.Emptying u 0 t) (k : ℕ) :
    ((List.range k).foldl (f.driveOutRow 0) t).vertex = t.vertex := by
  induction k with
  | zero => rfl
  | succ k ih =>
    rw [foldl_driveOutRow_succ, (h.foldl k).vertex_driveOutRow, ih]

theorem Emptying.driveOut (h : f.Emptying u 0 t) : (f.driveOut 0 t).vertex = t.vertex ∧
    (f.driveOut 0 t).Feasible ∧ f.Cleared (f.driveOut 0 t) := by
  have emptied := h.foldl t.rows.length
  exact ⟨h.vertex_foldl _, emptied.feasible, cleared_of_settled emptied.sound.canonical h.settled_driveOut⟩

end StandardForm

variable {f : StandardForm ℚ} {s : SolverSettings ℚ} {m m' : Moment ℚ} {made : Option (ℕ × ℕ)}

/-! ## The second phase -/

theorem Turn.ready (sharp : s.pivotTolerance = 0) (second : m.phase = .second) (ready : f.Ready m.tableau)
    (turn : Turn f s made m m') : m'.phase = .second ∧ f.Ready m'.tableau := by
  obtain ⟨row, column, -, due, -, second', pivot⟩ := turn.of_second second
  rw [Moment.due, sharp, second] at due
  exact ⟨second', pivot ▸ ready.step due⟩

/-- **Without tolerances the second phase is ready throughout.** -/
theorem Visited.ready (proper : f.Proper) (sharp : s.pivotTolerance = 0) (binding : s.bindingTolerance = 0)
    (visited : Visited f s m) (second : m.phase = .second) : f.Ready m.tableau := by
  obtain ⟨t, pivots, start, leads⟩ := visited.exists_start second
  have both := leads.keeps (P := fun m => m.phase = .second ∧ f.Ready m.tableau)
    ⟨rfl, start_ready proper sharp binding start⟩
    fun _ _ _ ⟨second, ready⟩ turn => turn.ready sharp second ready
  exact both.2

/-- **Driving artificial columns out is harmless and complete.** Without tolerances, when a first phase
leaves nothing on the artificial columns, driving them out leaves the vertex where it is, makes no
right-hand side negative and leaves them no part in the tableau that the second phase starts from; and
they have none at any moment of the second phase, up to the one that the solution is read off. -/
theorem driveOut_harmless (s : SolverSettings ℚ) (p : Program ℚ) (valid : p.flaw? = none)
    (sharp : s.pivotTolerance = 0) (binding : s.bindingTolerance = 0) :
    let f := ofProgram p
    let t := (f.firstRun s).tableau
    let driven := f.driveOut s.pivotTolerance t
    (0 < f.artificialCount → (f.firstRun s).stop = .optimal → f.residual t = 0 →
      f.start s = .feasible (f.restoreGoal driven) (f.firstRun s).pivots ∧
        driven.vertex = t.vertex ∧ driven.Feasible ∧ f.Cleared driven) ∧
      (∃ last : Moment ℚ, last.Concludes s p) ∧
      ∀ m, Visited f s m → m.phase = .second → f.Cleared m.tableau := by
  intro f t driven
  have proper : f.Proper := ofProgram_proper (p.flaw?_eq_none_iff.mp valid)
  refine ⟨?_, exists_concludes s p, ?_⟩
  · intro some optimal residual
    have small : ¬s.bindingTolerance < f.residual t := by
      rw [binding]
      exact residual.le.not_gt
    have start : f.start s = .feasible (f.restoreGoal driven) (f.firstRun s).pivots :=
      (start_eq_feasible_iff some).mpr ⟨optimal, small, rfl, rfl⟩
    have cleared := (emptying_firstRun proper sharp residual.le).driveOut
    rw [← sharp] at cleared
    exact ⟨start, cleared⟩
  · intro m visited second
    have ready := visited.ready proper sharp binding second
    exact cleared_of_settled ready.sound.canonical ready.settled

theorem driveOut_harmless_repeated :
    let f := ofProgram repeated
    let t := (f.firstRun ⟨100, 0, 0⟩).tableau
    (repeated.flaw? = none ∧ 0 < f.artificialCount ∧ (f.firstRun ⟨100, 0, 0⟩).stop = .optimal ∧
      f.residual t = 0) ∧
    (f.start ⟨100, 0, 0⟩ = .feasible (f.restoreGoal (f.driveOut 0 t)) (f.firstRun ⟨100, 0, 0⟩).pivots ∧
      (f.driveOut 0 t).vertex = t.vertex ∧ (f.driveOut 0 t).Feasible ∧ f.Cleared (f.driveOut 0 t)) ∧
    (∃ last : Moment ℚ, last.Concludes ⟨100, 0, 0⟩ repeated) ∧
    ∀ m, Visited f ⟨100, 0, 0⟩ m → m.phase = .second → f.Cleared m.tableau := by
  intro f t
  have valid : repeated.flaw? = none := by decide +kernel
  have some : 0 < f.artificialCount := by decide +kernel
  have optimal : (f.firstRun ⟨100, 0, 0⟩).stop = .optimal := by decide +kernel
  have residual : f.residual t = 0 := by decide +kernel
  obtain ⟨driven, second⟩ := driveOut_harmless ⟨100, 0, 0⟩ repeated valid rfl rfl
  exact ⟨⟨valid, some, optimal, residual⟩, driven some optimal residual, second⟩

end Allotment.Simplex
