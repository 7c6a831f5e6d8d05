import Allotment.Proofs.Simplex.Representation

/-!
# What pivots gain

Without a pivot tolerance a pivot that is due at a feasible tableau keeps it feasible and moves the
objective by what a unit of the entering column gains, as many times as the least ratio. So it never
loses any, and gains some unless the leaving row has no right-hand side, which is when the pivot counts
as one that leaves the point where it is (`Turn.advances`).

The first phase starts feasible. The second need not: the first phase is content with artificial columns
that add up to no more than the binding tolerance, and driving one out that has a quantity is a pivot
without a ratio test, on an entry of either sign. Then the second phase starts with a negative right-hand
side, keeps one, and may lose objective by a pivot that is due (`strained_falls_back`). What remains true
is an equivalence: all pivots of the second phase advance exactly when it starts feasible, or makes no
pivot (`pivots_advance_iff`). That is so whenever the program has a feasible point, and whenever nothing
at all may be left on the artificial columns.
-/

namespace Allotment.Simplex
set_option autoImplicit false

open StandardForm

/-- **A pivot that advances** from one moment to the next: no right-hand side is negative before or after
it, no objective is lost, and some is gained exactly when the count of pivots on end that left the point
where it is starts anew. -/
structure Moment.Advances (m m' : Moment ℚ) : Prop where
  before : m.tableau.Feasible
  after : m'.tableau.Feasible
  keeps : -m.tableau.goal.rhs ≤ -m'.tableau.goal.rhs
  gains_iff : -m.tableau.goal.rhs < -m'.tableau.goal.rhs ↔ m'.streak = 0

/-- All pivots of a phase advance. -/
def PivotsAdvance (f : StandardForm ℚ) (s : SolverSettings ℚ) (phase : Phase) : Prop :=
  ∀ m m' row column, Visited f s m → m.phase = phase → Turn f s (some (row, column)) m m' → m.Advances m'

/-! ## One pivot -/

variable {f : StandardForm ℚ} {s : SolverSettings ℚ} {p : Program ℚ} {m m' : Moment ℚ} {t : Tableau ℚ}
  {row column pivots : ℕ}

/-- **A pivot of a run advances** from a feasible tableau. -/
theorem Turn.advances (sharp : s.pivotTolerance = 0) (iterates : m.phase.Iterates)
    (feasible : m.tableau.Feasible) (turn : Turn f s (some (row, column)) m m') : m.Advances m' := by
  cases turn with
  | driven driven => exact absurd iterates Phase.not_iterates_clearing
  | pivot _ due left =>
    rw [Moment.due, sharp] at due
    obtain ⟨r, limits⟩ := Tableau.due_of_step due
    have nonneg := feasible r limits.mem
    refine ⟨feasible, feasible.step due, ?_, ?_⟩
    · rw [limits.gain]
      exact le_add_of_nonneg_right (limits.gain_nonneg nonneg)
    · dsimp only
      rw [limits.gain, lt_add_iff_pos_right, limits.gain_pos_iff, sharp,
        Tableau.degenerate_eq limits.row_eq]
      -- the count starts anew when the row that leaves has a right-hand side
      by_cases still : r.rhs ≤ 0
      · simp [still]
      · simp [still, not_le.mp still]

/-! ## The first phase -/

/-- The first phase is feasible throughout. -/
theorem Visited.feasible_first (proper : f.Proper) (sharp : s.pivotTolerance = 0) (visited : Visited f s m)
    (first : m.phase = .first) : m.tableau.Feasible := by
  refine visited.keeps (P := fun m => m.phase = .first → m.tableau.Feasible) ?_ ?_ first
  · unfold outset
    split
    · exact fun _ => firstStart_feasible proper
    · nofun
  · intro made m m' feasible turn first
    cases turn with
    | pivot iterates due left =>
      exact ((Turn.pivot iterates due left).advances sharp iterates (feasible first)).after
    | found due small => cases first
    | driven driven => cases first
    | kept inside kept => cases first
    | restored finished => cases first

theorem pivotsAdvance_first (proper : f.Proper) (sharp : s.pivotTolerance = 0) : PivotsAdvance f s .first := by
  intro m m' row column visited first turn
  have feasible := visited.feasible_first proper sharp first
  exact turn.advances sharp (first ▸ Phase.iterates_first) feasible

/-! ## The second phase -/

/-- The second phase stays feasible once it is. -/
theorem Leads.feasible (sharp : s.pivotTolerance = 0) (leads : Leads f s m m') (second : m.phase = .second)
    (feasible : m.tableau.Feasible) : m'.tableau.Feasible := by
  have both := leads.keeps (P := fun m => m.phase = .second ∧ m.tableau.Feasible) ⟨second, feasible⟩
    fun made m m' ⟨second, feasible⟩ turn => by
      obtain ⟨row, column, rfl, -, -, second', -⟩ := turn.of_second second
      exact ⟨second', (turn.advances sharp (second ▸ Phase.iterates_second) feasible).after⟩
  exact both.2

/-- The second phase makes a pivot when one is made where it starts. -/
theorem lt_pivots_secondPhase_iff : pivots < (f.secondPhase s t pivots).pivots ↔
    ∃ row column m', Turn f s (some (row, column)) ⟨.second, 0, pivots, t⟩ m' := by
  constructor
  · intro more
    rw [secondPhase, Tableau.run, Tableau.runFrom_eq] at more
    cases due : t.step s.pivotTolerance f.artificialStart (decide (degenerateStreakLimit ≤ 0)) with
    | optimal =>
      rw [due] at more
      exact absurd more (lt_irrefl pivots)
    | unbounded =>
      rw [due] at more
      exact absurd more (lt_irrefl pivots)
    | pivot row column =>
      have left : pivots < s.maxPivots := by
        by_contra spent
        rw [due, Nat.sub_eq_zero_of_le (not_lt.mp spent)] at more
        exact absurd more (lt_irrefl pivots)
      exact ⟨row, column, _, .pivot Phase.iterates_second due left⟩
  · rintro ⟨row, column, m', turn⟩
    obtain ⟨row', column', -, due, left, -, -⟩ := turn.of_second rfl
    have next : t.step s.pivotTolerance f.artificialStart (decide (degenerateStreakLimit ≤ 0)) =
      .pivot row' column' := due
    rw [secondPhase, Tableau.run, runFrom_of_due next left]
    exact Tableau.pivots_runFrom_bounds.1

/-- **All pivots of the second phase advance** exactly when it starts feasible, or makes no pivot. -/
theorem pivotsAdvance_second_iff (sharp : s.pivotTolerance = 0) : PivotsAdvance f s .second ↔
    ∀ t pivots, f.start s = .feasible t pivots → pivots < (f.secondPhase s t pivots).pivots → t.Feasible := by
  constructor
  · intro advance t pivots start more
    obtain ⟨row, column, m', turn⟩ := lt_pivots_secondPhase_iff.mp more
    exact (advance _ m' row column (visited_of_start start) rfl turn).before
  · intro startsFeasible m m' row column visited second turn
    obtain ⟨t, pivots, start, leads⟩ := visited.exists_start second
    -- the pivot at hand, or the first one on the way to it
    have first : ∃ row column m', Turn f s (some (row, column)) ⟨.second, 0, pivots, t⟩ m' := by
      obtain rfl | ⟨m'', ⟨made, turn'⟩, -⟩ := leads.cases_head
      · exact ⟨row, column, m', turn⟩
      · obtain ⟨row', column', rfl, -⟩ := turn'.of_second rfl
        exact ⟨row', column', m'', turn'⟩
    have feasible := startsFeasible t pivots start (lt_pivots_secondPhase_iff.mpr first)
    exact turn.advances sharp (second ▸ Phase.iterates_second) (leads.feasible sharp rfl feasible)

/-- A program with a feasible point has nothing left on the artificial columns after the first phase. -/
theorem residual_of_feasible (h : p.WellFormed) (sharp : s.pivotTolerance = 0) {x : List ℚ}
    (feasible : p.Feasible x) (optimal : ((ofProgram p).firstRun s).stop = .optimal) :
    (ofProgram p).residual ((ofProgram p).firstRun s).tableau ≤ 0 := by
  obtain ⟨z, ⟨solves, nonneg, genuine⟩, -⟩ := surjOn_corner h feasible
  have least := residual_firstRun_le (ofProgram_proper h) sharp optimal nonneg solves
  rwa [shortfall_genuine fun j artificial _ => genuine j artificial] at least

/-- **When every pivot advances**, for every valid program and without a pivot tolerance, on the way to the
tableau that the solution is read off: always in the first phase; in the second exactly when it starts
without a negative right-hand side or makes no pivot; and so in both whenever the binding tolerance is
not positive or the program has a feasible point. -/
theorem pivots_advance_iff (s : SolverSettings ℚ) (p : Program ℚ) (valid : p.flaw? = none)
    (sharp : s.pivotTolerance = 0) :
    let f := ofProgram p
    (∃ last : Moment ℚ, last.Concludes s p) ∧
      PivotsAdvance f s .first ∧
      (PivotsAdvance f s .second ↔ ∀ t pivots, f.start s = .feasible t pivots →
        pivots < (f.secondPhase s t pivots).pivots → t.Feasible) ∧
      (s.bindingTolerance ≤ 0 ∨ (∃ x, p.Feasible x) → PivotsAdvance f s .second) := by
  intro f
  have h := p.flaw?_eq_none_iff.mp valid
  have proper : f.Proper := ofProgram_proper h
  refine ⟨exists_concludes s p, pivotsAdvance_first proper sharp, pivotsAdvance_second_iff sharp,
    fun enough => ?_⟩
  refine (pivotsAdvance_second_iff sharp).mpr fun t pivots start _ => ?_
  refine (start_ready_of_residual proper sharp start fun some => ?_).feasible
  obtain ⟨none, -⟩ | ⟨-, optimal, small, -⟩ := start_eq_feasible start
  · exact absurd none some.ne'
  · obtain binding | ⟨x, feasible⟩ := enough
    · exact small.trans binding
    · exact residual_of_feasible h sharp feasible optimal

theorem pivots_advance_iff_repeated :
    (repeated.flaw? = none ∧ (⟨100, 0, 1e-6⟩ : SolverSettings ℚ).pivotTolerance = 0 ∧
      repeated.Feasible [1, 1, 1]) ∧
    let f := ofProgram repeated
    (∃ last : Moment ℚ, last.Concludes ⟨100, 0, 1e-6⟩ repeated) ∧
      PivotsAdvance f ⟨100, 0, 1e-6⟩ .first ∧
      (PivotsAdvance f ⟨100, 0, 1e-6⟩ .second ↔ ∀ t pivots, f.start ⟨100, 0, 1e-6⟩ = .feasible t pivots →
        pivots < (f.secondPhase ⟨100, 0, 1e-6⟩ t pivots).pivots → t.Feasible) ∧
      PivotsAdvance f ⟨100, 0, 1e-6⟩ .second := by
  have valid : repeated.flaw? = none := by decide +kernel
  have feasible : repeated.Feasible [1, 1, 1] := (repeated.feasible_zero_iff _).mp (by decide +kernel)
  obtain ⟨concludes, first, second, enough⟩ := pivots_advance_iff ⟨100, 0, 1e-6⟩ repeated valid rfl
  exact ⟨⟨valid, rfl, feasible⟩, concludes, first, second, enough (.inr ⟨_, feasible⟩)⟩

/-- Two quantities of which a billionth each is to be below zero by less than the binding tolerance. -/
def strained : Program ℚ where
  vars := [⟨"x", 0, none⟩, ⟨"w", 0, none⟩]
  objective := ⟨.minimize, [0, 1]⟩
  constraints := [⟨"x relief", [-1e-9, 0], .atLeast, 4e-7⟩, ⟨"w relief", [0, -1e-9], .atLeast, 4e-7⟩]

/-- Where its second phase starts: both quantities are four hundred below zero. -/
def overdrawn : Tableau ℚ where
  rows := [⟨⟨[1, 0, 1e9, 0, -1e9, 0], -400⟩, 0⟩, ⟨⟨[0, 1, 0, 1e9, 0, -1e9], -400⟩, 1⟩]
  goal := ⟨[0, 0, 0, 1e9, 0, -1e9], -400⟩

/-- **A pivot that falls back**: no point is feasible, but the first phase leaves little enough on the
artificial columns, and driving them out draws both quantities below their lower bound. The one pivot of
the second phase is due, and brings the objective from four hundred down to zero. The optimum that is
reported has a negative quantity. -/
theorem strained_falls_back :
    let s : SolverSettings ℚ := ⟨10000, 0, 1e-6⟩
    let before : Moment ℚ := ⟨.second, 0, 0, overdrawn⟩
    let after : Moment ℚ := ⟨.second, 1, 1, overdrawn.pivot 1 3⟩
    (strained.flaw? = none ∧ s.pivotTolerance = 0) ∧
    Visited (ofProgram strained) s before ∧ Turn (ofProgram strained) s (some (1, 3)) before after ∧
    ¬before.tableau.Feasible ∧ ¬after.tableau.Feasible ∧
    -before.tableau.goal.rhs = 400 ∧ -after.tableau.goal.rhs = 0 ∧
    (solve s strained).status = .optimal ∧ (solve s strained).values = [-400, 0] := by
  intro s before after
  have start : (ofProgram strained).start s = .feasible overdrawn 0 := by decide +kernel
  have due : before.due (ofProgram strained) s = .pivot 1 3 := by decide +kernel
  have turn : Turn (ofProgram strained) s (some (1, 3)) before after :=
    .pivot Phase.iterates_second due (by decide)
  refine ⟨⟨by decide +kernel, rfl⟩, visited_of_start start, turn, ?_⟩
  decide +kernel

end Allotment.Simplex
