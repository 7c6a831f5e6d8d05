import Allotment.Proofs.PivotCap

/-!
# Solving, moment by moment

`solve` runs two loops with a pass over the rows between them, and shows only what they end with. Here the
same work is told one step at a time. A `Moment` is where solving stands; a `Turn` takes one moment to the
next, with the pivot that is made on the way, if one is. What is due at a moment decides its turn
(`Turn.unique`), so there is one course from the outset, and the solution is read off the last moment of
it. Conversely every moment that is `Visited` lies on the two runs that `solve` makes
(`Visited.onCourse`). Both together are `exists_concludes`, so whatever turns keep holds of every tableau
that a program is solved with.

Nothing is asked of the arithmetic here.
-/

namespace Allotment.Simplex
set_option autoImplicit false

open StandardForm

/-- The parts of solving: the two runs of pivots, and between them the pass that drives artificial columns
out of the basis, with the row that comes next. -/
inductive Phase where
  | first
  | clearing (next : ℕ)
  | second
  deriving DecidableEq, Repr

/-- **A moment of solving**: the phase, how many pivots on end have left the point where it is, how many
were made in all, and the tableau. -/
structure Moment (α : Type) where
  phase : Phase
  streak : ℕ
  pivots : ℕ
  tableau : Tableau α
  deriving DecidableEq, Repr

/-- The phases that are runs of pivots. -/
def Phase.Iterates (phase : Phase) : Prop := phase = .first ∨ phase = .second

/-- How many columns may enter in a phase: only the first one lets artificial columns in. -/
def Phase.columns {α : Type} (f : StandardForm α) : Phase → ℕ
  | .first => f.columnCount
  | .clearing _ | .second => f.artificialStart

/-- How a run ends at a tableau where this is due and no more is done. -/
def Step.stop : Step → Stop
  | .optimal => .optimal
  | .unbounded => .unbounded
  | .pivot _ _ => .limit

section

variable {α : Type} [Scalar α]

/-- What is due at a moment. -/
def Moment.due (f : StandardForm α) (s : SolverSettings α) (m : Moment α) : Step :=
  m.tableau.step s.pivotTolerance (m.phase.columns f) (decide (degenerateStreakLimit ≤ m.streak))

/-- **One turn of solving**, with the row and the column of the pivot that it makes. -/
inductive Turn (f : StandardForm α) (s : SolverSettings α) :
    Option (ℕ × ℕ) → Moment α → Moment α → Prop where
  /-- A run makes the pivot that is due. -/
  | pivot {m : Moment α} {row column : ℕ} (iterates : m.phase.Iterates)
      (due : m.due f s = .pivot row column) (left : m.pivots < s.maxPivots) :
      Turn f s (some (row, column)) m
        { m with
          streak := if m.tableau.degenerate s.pivotTolerance row then m.streak + 1 else 0
          pivots := m.pivots + 1
          tableau := m.tableau.pivot row column }
  /-- The first run has ended with little enough on the artificial columns. -/
  | found {streak pivots : ℕ} {t : Tableau α} (due : Moment.due f s ⟨.first, streak, pivots, t⟩ = .optimal)
      (small : ¬s.bindingTolerance < f.residual t) :
      Turn f s none ⟨.first, streak, pivots, t⟩ ⟨.clearing 0, 0, pivots, t⟩
  /-- A row is solved for another column than its artificial one. -/
  | driven {next column pivots : ℕ} {t : Tableau α}
      (driven : f.drivenColumn? s.pivotTolerance t next = some column) :
      Turn f s (some (next, column)) ⟨.clearing next, 0, pivots, t⟩
        ⟨.clearing (next + 1), 0, pivots, t.pivot next column⟩
  /-- A row is left as it is. -/
  | kept {next pivots : ℕ} {t : Tableau α} (inside : next < t.rows.length)
      (kept : f.drivenColumn? s.pivotTolerance t next = none) :
      Turn f s none ⟨.clearing next, 0, pivots, t⟩ ⟨.clearing (next + 1), 0, pivots, t⟩
  /-- All rows are done, and the objective of the program comes back. -/
  | restored {next pivots : ℕ} {t : Tableau α} (finished : next = t.rows.length) :
      Turn f s none ⟨.clearing next, 0, pivots, t⟩ ⟨.second, 0, pivots, f.restoreGoal t⟩

/-- Turn after turn one moment leads to another. -/
def Leads (f : StandardForm α) (s : SolverSettings α) : Moment α → Moment α → Prop :=
  Relation.ReflTransGen fun m m' => ∃ made, Turn f s made m m'

/-- Where solving begins. -/
def StandardForm.outset (f : StandardForm α) : Moment α :=
  if 0 < f.artificialCount then ⟨.first, 0, 0, f.firstStart⟩ else ⟨.second, 0, 0, f.tableau⟩

/-- **The moments of solving a standard form.** -/
def Visited (f : StandardForm α) (s : SolverSettings α) (m : Moment α) : Prop := Leads f s f.outset m

/-- Nothing follows on a moment. -/
def Moment.Last (f : StandardForm α) (s : SolverSettings α) (m : Moment α) : Prop :=
  ∀ made m', ¬Turn f s made m m'

/-- What is reported at the last moment of solving a program. -/
def Moment.outcome (s : SolverSettings α) (p : Program α) (m : Moment α) : Solution α :=
  let f := StandardForm.ofProgram p
  match (m.due f s).stop, m.phase with
  | .limit, _ => .pivotLimit p m.pivots
  | .unbounded, .second => .unbounded p m.pivots
  | .optimal, .second => f.solution p s m.tableau m.pivots
  | _, _ => .infeasible p (p.violations (f.point m.tableau) s.bindingTolerance) m.pivots

end

variable {α : Type} [Scalar α] {f : StandardForm α} {s : SolverSettings α} {m m' m'' : Moment α}
  {phase : Phase} {streak pivots next : ℕ} {t : Tableau α} {made made' : Option (ℕ × ℕ)}

theorem Phase.iterates_first : Phase.first.Iterates := Or.inl rfl

theorem Phase.iterates_second : Phase.second.Iterates := Or.inr rfl

theorem Phase.not_iterates_clearing : ¬(Phase.clearing next).Iterates := by
  rintro (h | h) <;> cases h

theorem Leads.turn (leads : Leads f s m m') (turn : Turn f s made m' m'') : Leads f s m m'' :=
  leads.tail ⟨made, turn⟩

/-- **What turns keep, holds all the way on.** -/
theorem Leads.keeps {P : Moment α → Prop} (leads : Leads f s m m') (here : P m)
    (keeps : ∀ made m m', P m → Turn f s made m m' → P m') : P m' := by
  induction leads with
  | refl => exact here
  | tail _ turn ih =>
    obtain ⟨made, turn⟩ := turn
    exact keeps made _ _ ih turn

/-- **What turns keep, visited moments have.** -/
theorem Visited.keeps {P : Moment α → Prop} (visited : Visited f s m) (start : P f.outset)
    (keeps : ∀ made m m', P m → Turn f s made m m' → P m') : P m :=
  Leads.keeps visited start keeps

theorem lt_length_of_drivenColumn? {tolerance : α} {row column : ℕ}
    (h : f.drivenColumn? tolerance t row = some column) : row < t.rows.length := by
  unfold StandardForm.drivenColumn? at h
  split at h
  · cases h
  · next hr => exact (List.getElem?_eq_some_iff.mp hr).1

/-- **What is due decides the turn.** -/
theorem Turn.unique (h : Turn f s made m m') (k : Turn f s made' m m'') : made = made' ∧ m' = m'' := by
  cases h with
  | pivot iterates due left =>
    cases k with
    | pivot _ due' _ =>
      cases due.symm.trans due'
      exact ⟨rfl, rfl⟩
    | found due' _ => cases due.symm.trans due'
    | driven _ => exact absurd iterates Phase.not_iterates_clearing
    | kept _ _ => exact absurd iterates Phase.not_iterates_clearing
    | restored _ => exact absurd iterates Phase.not_iterates_clearing
  | found due small =>
    cases k with
    | pivot _ due' _ => cases due.symm.trans due'
    | found _ _ => exact ⟨rfl, rfl⟩
  | driven driven =>
    cases k with
    | pivot iterates _ _ => exact absurd iterates Phase.not_iterates_clearing
    | driven driven' =>
      cases driven.symm.trans driven'
      exact ⟨rfl, rfl⟩
    | kept _ kept => cases driven.symm.trans kept
    | restored finished => exact absurd finished (lt_length_of_drivenColumn? driven).ne
  | kept inside kept =>
    cases k with
    | pivot iterates _ _ => exact absurd iterates Phase.not_iterates_clearing
    | driven driven => cases driven.symm.trans kept
    | kept _ _ => exact ⟨rfl, rfl⟩
    | restored finished => exact absurd finished inside.ne
  | restored finished =>
    cases k with
    | pivot iterates _ _ => exact absurd iterates Phase.not_iterates_clearing
    | driven driven => exact absurd finished (lt_length_of_drivenColumn? driven).ne
    | kept inside _ => exact absurd finished inside.ne
    | restored _ => exact ⟨rfl, rfl⟩

/-- **A turn of the second phase is a pivot** that is due and left. -/
theorem Turn.of_second (turn : Turn f s made m m') (second : m.phase = .second) : ∃ row column,
    made = some (row, column) ∧ m.due f s = .pivot row column ∧ m.pivots < s.maxPivots ∧
      m'.phase = .second ∧ m'.tableau = m.tableau.pivot row column := by
  cases turn with
  | pivot iterates due left => exact ⟨_, _, rfl, due, left, second, rfl⟩
  | found due small => cases second
  | driven driven => cases second
  | kept inside kept => cases second
  | restored finished => cases second

/-- Every moment on the way to a last one leads there. -/
theorem Visited.leads_last (visited : Visited f s m) (last : Visited f s m') (nothing : m'.Last f s) :
    Leads f s m m' := by
  have determined : Relator.RightUnique fun m m' : Moment α => ∃ made, Turn f s made m m' := by
    rintro a b c ⟨_, h⟩ ⟨_, k⟩
    exact (h.unique k).2
  obtain before | after := Relation.ReflTransGen.total_of_right_unique determined visited last
  · exact before
  · obtain rfl | ⟨_, ⟨made, turn⟩, -⟩ := after.cases_head
    · exact .refl
    · exact absurd turn (nothing made _)

/-! ## The course that solving takes -/

/-- **A run, pivot by pivot.** It ends at a moment where what is due is the cause of its end, and for want of
pivots only when they are spent. -/
theorem leads_runFrom (iterates : phase.Iterates) (streak pivots : ℕ) (t : Tableau α) {budget : ℕ}
    (rest : s.maxPivots - pivots = budget) :
    let run := Tableau.runFrom s.pivotTolerance (phase.columns f) budget streak pivots t
    ∃ streak', Leads f s ⟨phase, streak, pivots, t⟩ ⟨phase, streak', run.pivots, run.tableau⟩ ∧
      (Moment.due f s ⟨phase, streak', run.pivots, run.tableau⟩).stop = run.stop ∧
      (run.stop = .limit → s.maxPivots ≤ run.pivots) := by
  induction budget generalizing streak pivots t with
  | zero =>
    rw [Tableau.runFrom_eq]
    cases due : t.step s.pivotTolerance (phase.columns f) (decide (degenerateStreakLimit ≤ streak)) with
    | optimal => exact ⟨streak, .refl, congrArg Step.stop due, nofun⟩
    | unbounded => exact ⟨streak, .refl, congrArg Step.stop due, nofun⟩
    | pivot row column =>
      exact ⟨streak, .refl, congrArg Step.stop due, fun _ => Nat.le_of_sub_eq_zero rest⟩
  | succ budget ih =>
    rw [Tableau.runFrom_eq]
    cases due : t.step s.pivotTolerance (phase.columns f) (decide (degenerateStreakLimit ≤ streak)) with
    | optimal => exact ⟨streak, .refl, congrArg Step.stop due, nofun⟩
    | unbounded => exact ⟨streak, .refl, congrArg Step.stop due, nofun⟩
    | pivot row column =>
      have turn : Turn f s (some (row, column)) ⟨phase, streak, pivots, t⟩ _ :=
        .pivot iterates due (show pivots < s.maxPivots by omega)
      obtain ⟨streak', leads, end'⟩ :=
        ih (if t.degenerate s.pivotTolerance row then streak + 1 else 0) (pivots + 1) (t.pivot row column)
          (by omega)
      exact ⟨streak', .head ⟨_, turn⟩ leads, end'⟩

/-- **Driving artificial columns out, row by row.** -/
theorem leads_driveOut (t : Tableau α) (pivots : ℕ) {k : ℕ} (le : k ≤ t.rows.length) :
    Leads f s ⟨.clearing 0, 0, pivots, t⟩
      ⟨.clearing k, 0, pivots, (List.range k).foldl (f.driveOutRow s.pivotTolerance) t⟩ := by
  induction k with
  | zero => exact .refl
  | succ k ih =>
    have before := ih (by omega)
    rw [foldl_driveOutRow_succ, driveOutRow_eq]
    have length := length_foldl_driveOutRow f s.pivotTolerance t (List.range k)
    cases driven : f.drivenColumn? s.pivotTolerance
        ((List.range k).foldl (f.driveOutRow s.pivotTolerance) t) k with
    | none => exact before.turn (.kept (by omega) driven)
    | some column => exact before.turn (.driven driven)

/-- The first run, where there is one. -/
theorem visited_firstRun (some : 0 < f.artificialCount) : ∃ streak,
    Visited f s ⟨.first, streak, (f.firstRun s).pivots, (f.firstRun s).tableau⟩ ∧
      (Moment.due f s ⟨.first, streak, (f.firstRun s).pivots, (f.firstRun s).tableau⟩).stop =
        (f.firstRun s).stop ∧
      ((f.firstRun s).stop = .limit → s.maxPivots ≤ (f.firstRun s).pivots) := by
  have run := leads_runFrom (f := f) (s := s) Phase.iterates_first 0 0 f.firstStart rfl
  simp only [Visited, outset, if_pos some]
  exact run

theorem stop_eq_optimal_iff {due : Step} : due.stop = .optimal ↔ due = .optimal := by
  cases due <;> simp [Step.stop]

/-- **Where the second phase starts is visited.** -/
theorem visited_of_start (start : f.start s = .feasible t pivots) : Visited f s ⟨.second, 0, pivots, t⟩ := by
  by_cases some : 0 < f.artificialCount
  · obtain ⟨optimal, small, rfl, rfl⟩ := (start_eq_feasible_iff some).mp start
    obtain ⟨streak, visited, stop, -⟩ := visited_firstRun (s := s) some
    have found := visited.turn (.found (stop_eq_optimal_iff.mp (stop.trans optimal)) small)
    have cleared : Visited f s _ := found.trans (leads_driveOut _ _ le_rfl)
    exact cleared.turn (.restored (length_foldl_driveOutRow _ _ _ _).symm)
  · rw [start_of_no_artificial some] at start
    cases start
    rw [Visited, outset, if_neg some]
    exact .refl

/-- Nothing follows where a run has ended, unless the first one has found a start. -/
theorem last_of_run (iterates : m.phase.Iterates) (spent : (m.due f s).stop = .limit → s.maxPivots ≤ m.pivots)
    (short : m.phase = .first → (m.due f s).stop = .optimal → s.bindingTolerance < f.residual m.tableau) :
    m.Last f s := by
  intro made m' turn
  cases turn with
  | pivot _ due left => exact absurd (spent (congrArg Step.stop due)) left.not_ge
  | found due small => exact small (short rfl (congrArg Step.stop due))
  | driven _ => exact Phase.not_iterates_clearing iterates
  | kept _ _ => exact Phase.not_iterates_clearing iterates
  | restored _ => exact Phase.not_iterates_clearing iterates

/-- The second run, where there is one. -/
theorem visited_secondPhase (start : f.start s = .feasible t pivots) : ∃ streak,
    Visited f s ⟨.second, streak, (f.secondPhase s t pivots).pivots, (f.secondPhase s t pivots).tableau⟩ ∧
      (Moment.due f s
        ⟨.second, streak, (f.secondPhase s t pivots).pivots, (f.secondPhase s t pivots).tableau⟩).stop =
          (f.secondPhase s t pivots).stop ∧
      ((f.secondPhase s t pivots).stop = .limit → s.maxPivots ≤ (f.secondPhase s t pivots).pivots) := by
  obtain ⟨streak, leads, ends⟩ := leads_runFrom (f := f) (s := s) Phase.iterates_second 0 pivots t rfl
  exact ⟨streak, (visited_of_start start).trans leads, ends⟩

/-- The moments of solving a program end, and the solution is read off the last of them. -/
theorem exists_last (s : SolverSettings α) (p : Program α) : ∃ last, Visited (ofProgram p) s last ∧
    last.Last (ofProgram p) s ∧ solve s p = last.outcome s p := by
  cases start : (ofProgram p).start s with
  | feasible t pivots =>
    obtain ⟨streak, visited, stop, spent⟩ := visited_secondPhase start
    refine ⟨_, visited, last_of_run Phase.iterates_second (fun cut => spent (stop ▸ cut)) nofun, ?_⟩
    rw [solve_of_start_feasible start, Moment.outcome]
    cases ends : ((ofProgram p).secondPhase s t pivots).stop <;> simp only [stop, ends]
  | limit pivots =>
    have some : 0 < (ofProgram p).artificialCount := artificialCount_pos (s := s) (by simp [start])
    obtain ⟨streak, visited, stop, spent⟩ := visited_firstRun (s := s) some
    obtain ⟨cut, rfl⟩ := (start_eq_limit_iff some).mp start
    refine ⟨_, visited, last_of_run Phase.iterates_first (fun _ => spent cut) (fun _ optimal => ?_), ?_⟩
    · rw [stop, cut] at optimal
      cases optimal
    · rw [solve_of_start_limit start, Moment.outcome]
      simp only [stop, cut]
  | infeasible t pivots =>
    have some : 0 < (ofProgram p).artificialCount := artificialCount_pos (s := s) (by simp [start])
    obtain ⟨streak, visited, stop, spent⟩ := visited_firstRun (s := s) some
    obtain ⟨ends, rfl, rfl⟩ := (start_eq_infeasible_iff some).mp start
    refine ⟨_, visited, last_of_run Phase.iterates_first (fun cut => spent (stop ▸ cut))
      (fun _ optimal => ?_), ?_⟩
    · obtain unbounded | ⟨-, large⟩ := ends
      · rw [stop, unbounded] at optimal
        cases optimal
      · exact large
    · rw [solve_of_start_infeasible start, Moment.outcome]
      obtain unbounded | ⟨optimal, -⟩ := ends
      · simp only [stop, unbounded]
      · simp only [stop, optimal]

/-! ## Where a visited moment comes from -/

/-- How a moment lies on the way that `solve` goes. -/
def Moment.OnCourse (f : StandardForm α) (s : SolverSettings α) (m : Moment α) : Prop :=
  match m.phase with
  | .first => 0 < f.artificialCount ∧ f.firstRun s = Tableau.runFrom s.pivotTolerance f.columnCount
      (s.maxPivots - m.pivots) m.streak m.pivots m.tableau
  | .clearing next => 0 < f.artificialCount ∧ (f.firstRun s).stop = .optimal ∧
      ¬s.bindingTolerance < f.residual (f.firstRun s).tableau ∧ m.pivots = (f.firstRun s).pivots ∧
      m.tableau = (List.range next).foldl (f.driveOutRow s.pivotTolerance) (f.firstRun s).tableau
  | .second => ∃ t pivots, f.start s = .feasible t pivots ∧ Leads f s ⟨.second, 0, pivots, t⟩ m ∧
      f.secondPhase s t pivots = Tableau.runFrom s.pivotTolerance f.artificialStart
        (s.maxPivots - m.pivots) m.streak m.pivots m.tableau

theorem onCourse_outset : f.outset.OnCourse f s := by
  unfold outset
  split
  · next some => exact ⟨some, rfl⟩
  · next none => exact ⟨f.tableau, 0, start_of_no_artificial none, .refl, rfl⟩

/-- A run from a moment at which a pivot is due and left is the run from the moment after it. -/
theorem runFrom_of_due {tolerance : α} {columns cap row column : ℕ}
    (due : t.step tolerance columns (decide (degenerateStreakLimit ≤ streak)) = .pivot row column)
    (left : pivots < cap) : Tableau.runFrom tolerance columns (cap - pivots) streak pivots t =
      Tableau.runFrom tolerance columns (cap - (pivots + 1))
        (if t.degenerate tolerance row then streak + 1 else 0) (pivots + 1) (t.pivot row column) := by
  have budget : cap - pivots = cap - (pivots + 1) + 1 := by omega
  rw [budget, Tableau.runFrom_eq, due]

/-- **A turn stays on the way that solve goes.** -/
theorem Moment.OnCourse.turn (h : m.OnCourse f s) (turn : Turn f s made m m') : m'.OnCourse f s := by
  cases turn with
  | pivot iterates due left =>
    obtain ⟨phase, streak, pivots, t⟩ := m
    obtain rfl | rfl : phase = .first ∨ phase = .second := iterates
    · obtain ⟨some, run⟩ := h
      exact ⟨some, run.trans (runFrom_of_due due left)⟩
    · obtain ⟨u, before, start, leads, run⟩ := h
      exact ⟨u, before, start, leads.turn (.pivot Phase.iterates_second due left),
        run.trans (runFrom_of_due due left)⟩
  | @found streak pivots t due small =>
    obtain ⟨some, run⟩ := h
    have ended : f.firstRun s = ⟨.optimal, t, pivots⟩ := by
      refine run.trans ?_
      have optimal : t.step s.pivotTolerance f.columnCount (decide (degenerateStreakLimit ≤ streak)) =
        .optimal := due
      rw [Tableau.runFrom_eq, optimal]
    rw [Moment.OnCourse, ended]
    exact ⟨some, rfl, small, rfl, rfl⟩
  | @driven next column pivots t driven =>
    obtain ⟨some, optimal, small, spent, cleared⟩ := h
    obtain rfl : t = _ := cleared
    refine ⟨some, optimal, small, spent, ?_⟩
    rw [foldl_driveOutRow_succ, driveOutRow_eq, driven]
  | @kept next pivots t inside kept =>
    obtain ⟨some, optimal, small, spent, cleared⟩ := h
    obtain rfl : t = _ := cleared
    refine ⟨some, optimal, small, spent, ?_⟩
    rw [foldl_driveOutRow_succ, driveOutRow_eq, kept]
  | @restored next pivots t finished =>
    obtain ⟨some, optimal, small, spent, cleared⟩ := h
    obtain rfl : pivots = _ := spent
    obtain rfl : t = _ := cleared
    rw [length_foldl_driveOutRow] at finished
    exact ⟨_, _, (start_eq_feasible_iff some).mpr ⟨optimal, small, by rw [finished]; rfl, rfl⟩, .refl, rfl⟩

theorem Visited.onCourse (visited : Visited f s m) : m.OnCourse f s :=
  visited.keeps onCourse_outset fun _ _ _ h turn => h.turn turn

/-- **The second phase is visited from its start on.** -/
theorem Visited.exists_start (visited : Visited f s m) (second : m.phase = .second) :
    ∃ t pivots, f.start s = .feasible t pivots ∧ Leads f s ⟨.second, 0, pivots, t⟩ m := by
  have h := visited.onCourse
  simp only [Moment.OnCourse, second] at h
  obtain ⟨t, pivots, start, leads, -⟩ := h
  exact ⟨t, pivots, start, leads⟩

/-! ## The whole of it -/

/-- **The moment that solving a program concludes with.** Nothing follows on it, and the solution is read
off it. All that is visited lies on the runs that `solve` makes and leads to it, so the tableaus of
visited moments are those that the program is solved with, and no others. -/
structure Moment.Concludes (s : SolverSettings α) (p : Program α) (last : Moment α) : Prop where
  visited : Visited (ofProgram p) s last
  nothing : last.Last (ofProgram p) s
  outcome : solve s p = last.outcome s p
  onCourse : ∀ m, Visited (ofProgram p) s m → m.OnCourse (ofProgram p) s
  leads : ∀ m, Visited (ofProgram p) s m → Leads (ofProgram p) s m last

/-- **Solving concludes**: it is a course of moments from the outset to a last one. -/
theorem exists_concludes (s : SolverSettings α) (p : Program α) : ∃ last, Moment.Concludes s p last := by
  obtain ⟨last, visited, nothing, outcome⟩ := exists_last s p
  exact ⟨last, visited, nothing, outcome, fun _ visited' => visited'.onCourse,
    fun _ visited' => visited'.leads_last visited nothing⟩

end Allotment.Simplex
