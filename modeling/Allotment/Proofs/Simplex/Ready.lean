import Allotment.Proofs.Simplex.FirstPhase
import Allotment.Proofs.Simplex.Lift

/-!
# The second phase without tolerances

Without tolerances the second phase starts at a `Ready` tableau, and every pivot keeps it so: no
right-hand side is negative, and a row that is still solved for an artificial column says nothing
about any other column. If the second phase does not start for want of a feasible point, then no
solution of the first tableau is without negative and artificial quantities (`start_infeasible`):
the first phase ends where the shortfall is least (`residual_firstRun_le`).
-/

namespace Allotment.Simplex
set_option autoImplicit false

namespace StandardForm

/-- A row that is solved for an artificial column holds nothing else, and holds it at zero. -/
def Settled (f : StandardForm ℚ) (r : Row ℚ) : Prop :=
  f.artificialStart ≤ r.basic → r.rhs = 0 ∧ ∀ j < f.artificialStart, r.entry j = 0

/-- **Tableaus that the second phase may start from**, and that it goes through. -/
structure Ready (f : StandardForm ℚ) (t : Tableau ℚ) : Prop where
  sound : Tableau.Sound f.tableau f.columnCount t
  feasible : t.Feasible
  settled : ∀ r ∈ t.rows, f.Settled r

variable {f : StandardForm ℚ} {s : SolverSettings ℚ} {t u : Tableau ℚ} {tolerance : ℚ}
  {row column pivots : ℕ} {r : Row ℚ}

/-- Where every row is settled the artificial columns are zero at the vertex. -/
theorem vertex_artificial {n j : ℕ} (canonical : t.Canonical n) (settled : ∀ r ∈ t.rows, f.Settled r)
    (artificial : f.artificialStart ≤ j) : t.vertex j = 0 := by
  by_cases basic : j ∈ t.basis
  · obtain ⟨r, hr, rfl⟩ := Tableau.mem_basis.mp basic
    rw [canonical.vertex_basic hr]
    exact (settled r hr artificial).1
  · exact Tableau.vertex_of_not_mem basic

/-! ## Driving artificial columns out -/

theorem Settled.clearedBy {o : Row ℚ} (settled : f.Settled o)
    (same : o.entries.length = r.entries.length) (inside : column < f.artificialStart) :
    f.Settled (o.clearedBy column r) := by
  intro artificial
  obtain ⟨rhs, zero⟩ := settled artificial
  refine ⟨?_, fun j hj => ?_⟩
  · rw [Row.rhs_clearedBy, rhs, zero column inside]
    ring
  · rw [Row.entry_clearedBy same, zero j hj, zero column inside]
    ring

theorem settled_solvedFor (inside : column < f.artificialStart) : f.Settled (r.solvedFor column) :=
  fun artificial => absurd inside (not_lt.mpr artificial)

/-- What holds while artificial columns are driven out of a tableau whose artificial columns are
zero at the vertex: the rows before the next one are settled. -/
structure Emptying (f : StandardForm ℚ) (u : Tableau ℚ) (next : ℕ) (t : Tableau ℚ) : Prop where
  sound : Tableau.Sound u f.columnCount t
  feasible : t.Feasible
  spent : ∀ r ∈ t.rows, f.artificialStart ≤ r.basic → r.rhs = 0
  settled : ∀ i < next, ∀ r, t.rows[i]? = some r → f.Settled r

theorem Emptying.step {next : ℕ} (h : f.Emptying u next t) :
    f.Emptying u (next + 1) (f.driveOutRow 0 t next) := by
  have sound := driveOutRow_sound le_rfl h.sound next
  obtain ⟨same, none⟩ | ⟨r, column, hr, artificial, inside, beyond, pivot⟩ :=
    driveOutRow_cases (f := f) le_rfl t next
  · rw [same]
    refine ⟨h.sound, h.feasible, h.spent, fun i hi r hr artificial => ?_⟩
    obtain before | rfl := Nat.lt_succ_iff_lt_or_eq.mp hi
    · exact h.settled i before r hr artificial
    · exact ⟨h.spent r (List.mem_of_getElem? hr) artificial,
        fun j hj => abs_nonpos_iff.mp (none r hr artificial j hj)⟩
  · have zero := h.spent r (List.mem_of_getElem? hr) artificial
    rw [pivot] at sound ⊢
    refine ⟨sound, fun q hq => ?_, fun q hq other => ?_, fun i hi q hq => ?_⟩
    · obtain none | ⟨o, ho, -, same⟩ := Tableau.rhs_pivot_of_eq_zero hr zero hq
      · exact none.ge
      · exact same ▸ h.feasible o ho
    · obtain none | ⟨o, ho, basic, same⟩ := Tableau.rhs_pivot_of_eq_zero hr zero hq
      · exact none
      · exact same.trans (h.spent o ho (basic ▸ other))
    · rw [Tableau.rows_pivot hr, Option.map_eq_some_iff] at hq
      obtain ⟨o, ho, rfl⟩ := hq
      split
      · exact settled_solvedFor inside
      · next away =>
        have before : i < next := by omega
        exact (h.settled i before o ho).clearedBy
          (h.sound.canonical.same_width (List.mem_of_getElem? ho) (List.mem_of_getElem? hr)) inside

theorem Emptying.foldl (h : f.Emptying u 0 t) (k : ℕ) :
    f.Emptying u k ((List.range k).foldl (f.driveOutRow 0) t) := by
  induction k with
  | zero => exact h
  | succ k ih =>
    rw [foldl_driveOutRow_succ]
    exact ih.step

theorem length_driveOut : (f.driveOut tolerance t).rows.length = t.rows.length :=
  length_foldl_driveOutRow _ _ _ _

/-- **Without a tolerance every row ends up settled.** -/
theorem Emptying.settled_driveOut (h : f.Emptying u 0 t) : ∀ r ∈ (f.driveOut 0 t).rows, f.Settled r := by
  intro r hr
  obtain ⟨i, hi⟩ := List.getElem?_of_mem hr
  obtain ⟨inside, -⟩ := List.getElem?_eq_some_iff.mp hi
  rw [length_driveOut] at inside
  exact (h.foldl t.rows.length).settled i inside r hi

/-! ## The first phase -/

theorem shortfall_genuine {z : ℕ → ℚ} (genuine : f.Genuine z) : f.shortfall z = 0 :=
  Finset.sum_eq_zero fun j hj => genuine j (Finset.mem_Ico.mp hj).1 (Finset.mem_Ico.mp hj).2

section FirstRun

variable (proper : f.Proper) (sharp : s.pivotTolerance = 0)
include proper sharp

theorem firstRun_feasible : (f.firstRun s).tableau.Feasible := by
  rw [firstRun, sharp]
  exact (firstStart_feasible proper).run _ _

/-- The objective of the first phase, at its end. -/
theorem excess_firstRun {z : ℕ → ℚ} (solves : f.tableau.Solves z) :
    (f.firstRun s).tableau.goal.excess z = -f.shortfall z :=
  ((firstRun_sound (s := s) proper sharp.ge).equivalent.goal_eq z solves).trans (excess_firstStart proper solves)

theorem rhs_firstRun : (f.firstRun s).tableau.goal.rhs = f.residual (f.firstRun s).tableau := by
  have sound := firstRun_sound (s := s) proper sharp.ge
  have solves := (sound.equivalent.solves_iff _).mp sound.canonical.solves_vertex
  have goal := excess_firstRun proper sharp solves
  rw [sound.canonical.goal_excess_vertex, ← residual_eq sound.canonical] at goal
  exact neg_inj.mp goal

/-- **The first phase ends**: minus the shortfall cannot grow without limit. -/
theorem firstRun_ne_unbounded : (f.firstRun s).stop ≠ .unbounded := by
  intro unbounded
  have sound := firstRun_sound (s := s) proper sharp.ge
  obtain ⟨column, -, beyond, limits⟩ := Tableau.run_unbounded unbounded
  have gains : 0 < (f.firstRun s).tableau.goal.entry column := sharp.ge.trans_lt beyond
  have free : column ∉ (f.firstRun s).tableau.basis := fun basic =>
    gains.ne' (sound.canonical.goal_of_mem basic)
  -- far along the ray the objective would pass zero, but it is minus a sum of quantities
  obtain ⟨far, enough⟩ := exists_lt_nsmul gains (f.firstRun s).tableau.goal.rhs
  rw [nsmul_eq_mul] at enough
  have solves := (sound.equivalent.solves_iff _).mp (sound.canonical.solves_along far column)
  have goal := excess_firstRun proper sharp solves
  have short := shortfall_nonneg (f := f) (sound.canonical.nonneg_along
    (firstRun_feasible proper sharp) free (fun r hr => (limits r hr).trans sharp.le)
    (Nat.cast_nonneg far))
  rw [sound.canonical.goal_along] at goal
  linarith

/-- **The end of the first phase is least**: no solution without negative quantities falls short by
less than the residual that is left. -/
theorem residual_firstRun_le (optimal : (f.firstRun s).stop = .optimal) {z : ℕ → ℚ} (nonneg : ∀ j, 0 ≤ z j)
    (solves : f.tableau.Solves z) : f.residual (f.firstRun s).tableau ≤ f.shortfall z := by
  have sound := firstRun_sound (s := s) proper sharp.ge
  have bound := sound.canonical.goal_excess_le (z := z) fun j hj => by
    have loses := Tableau.run_optimal sharp.ge optimal hj
    exact mul_nonpos_of_nonpos_of_nonneg (loses.trans sharp.le) (nonneg j)
  rw [excess_firstRun proper sharp solves, rhs_firstRun proper sharp] at bound
  linarith

/-- A residual of zero leaves nothing on the artificial columns. -/
theorem firstRun_spent (residual : f.residual (f.firstRun s).tableau ≤ 0) :
    ∀ r ∈ (f.firstRun s).tableau.rows, f.artificialStart ≤ r.basic → r.rhs = 0 := by
  intro r hr artificial
  have sound := firstRun_sound (s := s) proper sharp.ge
  have nonneg := sound.canonical.vertex_nonneg (firstRun_feasible proper sharp)
  rw [residual_eq sound.canonical, shortfall] at residual
  have zero := (Finset.sum_eq_zero_iff_of_nonneg fun j _ => nonneg j).mp
    (le_antisymm residual (shortfall_nonneg nonneg)) r.basic
    (Finset.mem_Ico.mpr ⟨artificial, sound.canonical.basic_lt r hr⟩)
  rwa [sound.canonical.vertex_basic hr] at zero

/-- **Without a start the first phase ends optimal and short of something.** -/
theorem residual_of_start_infeasible (binding : s.bindingTolerance = 0) (h : f.start s = .infeasible t pivots) :
    (f.firstRun s).stop = .optimal ∧ 0 < f.residual (f.firstRun s).tableau := by
  obtain unbounded | ⟨optimal, large⟩ := start_eq_infeasible h
  · exact absurd unbounded (firstRun_ne_unbounded proper sharp)
  · exact ⟨optimal, binding.ge.trans_lt large⟩

/-- **Without a start no solution is without negative and artificial quantities.** -/
theorem start_infeasible (binding : s.bindingTolerance = 0) (h : f.start s = .infeasible t pivots)
    {z : ℕ → ℚ} (nonneg : ∀ j, 0 ≤ z j) (genuine : f.Genuine z) : ¬f.tableau.Solves z := by
  intro solves
  obtain ⟨optimal, short⟩ := residual_of_start_infeasible proper sharp binding h
  have least := residual_firstRun_le proper sharp optimal nonneg solves
  exact (shortfall_genuine genuine ▸ least).not_gt short

theorem emptying_firstRun (residual : f.residual (f.firstRun s).tableau ≤ 0) :
    f.Emptying f.firstStart 0 (f.firstRun s).tableau where
  sound := firstRun_sound proper sharp.ge
  feasible := firstRun_feasible proper sharp
  spent := firstRun_spent proper sharp residual
  settled i hi := absurd hi (Nat.not_lt_zero i)

/-- **The second phase starts ready** where the first one leaves nothing on the artificial columns. -/
theorem start_ready_of_residual (h : f.start s = .feasible t pivots)
    (residual : 0 < f.artificialCount → f.residual (f.firstRun s).tableau ≤ 0) : f.Ready t := by
  have sound := start_sound proper sharp.ge h
  obtain ⟨none, rfl, -⟩ | ⟨some, -, -, -, rfl⟩ := start_eq_feasible h
  · refine ⟨sound, tableau_feasible proper, fun r hr artificial => ?_⟩
    have inside := sound.canonical.basic_lt r hr
    have columns : f.columnCount = f.artificialStart := by rw [columnCount, none, Nat.add_zero]
    omega
  · have emptying := emptying_firstRun proper sharp (residual some)
    rw [sharp] at sound ⊢
    exact ⟨sound, (emptying.foldl _).feasible, emptying.settled_driveOut⟩

/-- **The second phase starts ready.** -/
theorem start_ready (binding : s.bindingTolerance = 0) (h : f.start s = .feasible t pivots) :
    f.Ready t := by
  refine start_ready_of_residual proper sharp h fun some => ?_
  obtain ⟨none, -⟩ | ⟨-, -, residual, -⟩ := start_eq_feasible h
  · exact absurd none some.ne'
  · exact binding ▸ residual

end FirstRun

/-! ## The second phase -/

namespace Ready

variable (ready : f.Ready t)
include ready

theorem step {cautious : Bool} (h : t.step 0 f.artificialStart cautious = .pivot row column) :
    f.Ready (t.pivot row column) := by
  obtain ⟨r, due⟩ := Tableau.due_of_step h
  refine ⟨due.sound ready.sound le_rfl, ready.feasible.step h, fun q hq => ?_⟩
  obtain rfl | ⟨i, o, -, ho, rfl⟩ := (Tableau.mem_pivot due.row_eq).mp hq
  · exact settled_solvedFor due.inside
  · have mem := List.mem_of_getElem? ho
    exact (ready.settled o mem).clearedBy (ready.sound.canonical.same_width mem due.mem) due.inside

/-- **The second phase stays ready.** -/
theorem run (sharp : s.pivotTolerance = 0) (pivots : ℕ) : f.Ready (f.secondPhase s t pivots).tableau := by
  rw [secondPhase, sharp]
  exact Tableau.runFrom_invariant (fun _ _ _ _ ready h => ready.step h) ready

/-- The artificial columns are zero at the vertex. -/
theorem genuine_vertex : f.Genuine t.vertex := fun _ artificial _ =>
  vertex_artificial ready.sound.canonical ready.settled artificial

/-- The artificial columns stay at zero along every ray. -/
theorem genuine_ray (inside : column < f.artificialStart) (free : column ∉ t.basis) :
    f.Genuine (t.ray column) := by
  intro j artificial _
  by_cases basic : j ∈ t.basis
  · obtain ⟨r, hr, rfl⟩ := Tableau.mem_basis.mp basic
    rw [ready.sound.canonical.ray_basic free hr, (ready.settled r hr artificial).2 column inside, neg_zero]
  · exact Tableau.ray_of_not_mem basic (inside.trans_le artificial).ne'

theorem nonneg_vertex (j : ℕ) : 0 ≤ t.vertex j := ready.sound.canonical.vertex_nonneg ready.feasible j

theorem solves_vertex : f.tableau.Solves t.vertex :=
  (ready.sound.equivalent.solves_iff _).mp ready.sound.canonical.solves_vertex

/-- **The vertex meets the rows.** -/
theorem meets_vertex (proper : f.Proper) : f.Meets 0 t.vertex :=
  meets_of_solves proper ready.solves_vertex ready.nonneg_vertex ready.genuine_vertex

/-- The objective of the program, at the solutions. -/
theorem weigh_gains {z : ℕ → ℚ} (solves : f.tableau.Solves z) : weigh f.gains z = t.goal.excess z := by
  rw [ready.sound.equivalent.goal_eq z solves]
  exact (excess_goal z).symm

theorem weigh_gains_vertex : weigh f.gains t.vertex = -t.goal.rhs := by
  rw [ready.weigh_gains ready.solves_vertex, ready.sound.canonical.goal_excess_vertex]

/-- **Along a ray that no row limits every point meets the rows.** -/
theorem meets_along (proper : f.Proper) (inside : column < f.artificialStart) (free : column ∉ t.basis)
    (unlimited : ∀ r ∈ t.rows, r.entry column ≤ 0) {far : ℚ} (hfar : 0 ≤ far) :
    f.Meets 0 (t.vertex + far • t.ray column) := by
  refine meets_of_solves proper ?_ ?_ ?_
  · exact (ready.sound.equivalent.solves_iff _).mp (ready.sound.canonical.solves_along far column)
  · exact ready.sound.canonical.nonneg_along ready.feasible free unlimited hfar
  · intro j artificial hj
    rw [Pi.add_apply, Pi.smul_apply, ready.genuine_vertex j artificial hj,
      ready.genuine_ray inside free j artificial hj, smul_zero, add_zero]

theorem weigh_gains_along (far : ℚ) (column : ℕ) :
    weigh f.gains (t.vertex + far • t.ray column) = -t.goal.rhs + far * t.goal.entry column := by
  rw [ready.weigh_gains, ready.sound.canonical.goal_along]
  exact (ready.sound.equivalent.solves_iff _).mp (ready.sound.canonical.solves_along far column)

end Ready

end StandardForm

end Allotment.Simplex
