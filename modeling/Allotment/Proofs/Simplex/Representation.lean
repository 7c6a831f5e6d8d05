import Allotment.Proofs.Simplex.Moments
import Allotment.Proofs.Vertex

/-!
# What a tableau stands for

At every moment of solving, the tableau stands for the program. Its rows are solved for distinct columns,
which form an identity in them; its solutions are those of the first tableau, and those of them without
negative and artificial quantities stand for the feasible points, one for each
(`bijOn_corner`); and its objective line gives, at every solution, what the phase maximizes. A turn keeps
this at every tolerance that is not negative, since no pivot is on an entry that is zero (`Turn.nonzero`):
not when artificial columns are driven out on an entry of either sign, and not when the objective of the
program comes back (`Turn.sound`).
-/

namespace Allotment.Simplex
set_option autoImplicit false

open StandardForm

/-- The tableau that the pivots of a phase go back to: its objective is that of the phase. -/
def Phase.origin (f : StandardForm ℚ) : Phase → Tableau ℚ
  | .first | .clearing _ => f.firstStart
  | .second => f.tableau

/-- **What a phase maximizes**: minus what the artificial columns add up to, until the objective of the
program comes back. -/
def Phase.objective (p : Program ℚ) (z : ℕ → ℚ) : Phase → ℚ
  | .first | .clearing _ => -∑ j ∈ Finset.Ico (ofProgram p).artificialStart (ofProgram p).columnCount, z j
  | .second => p.objective.sense.sign * weigh p.objective.coefficients z

/-- The solutions of the first tableau that stand for a point: no quantity is negative, and none is
artificial or past the last column. -/
def StandardForm.pointing (f : StandardForm ℚ) : Set (ℕ → ℚ) :=
  { z | f.tableau.Solves z ∧ (∀ j, 0 ≤ z j) ∧ ∀ j, f.artificialStart ≤ j → z j = 0 }

variable {f : StandardForm ℚ} {s : SolverSettings ℚ} {p : Program ℚ} {m m' : Moment ℚ}
  {made : Option (ℕ × ℕ)} {row column : ℕ}

/-! ## Solutions and points -/

section

variable (h : p.WellFormed)
include h

theorem mapsTo_corner :
    Set.MapsTo (ofProgram p).corner (ofProgram p).pointing { x | p.Feasible x } := by
  rintro z ⟨solves, nonneg, genuine⟩
  refine (feasible_corner_iff h).mpr ⟨fun j _ => nonneg j, ?_⟩
  exact meets_of_solves (ofProgram_proper h) solves nonneg fun j artificial _ => genuine j artificial

theorem injOn_corner : Set.InjOn (ofProgram p).corner (ofProgram p).pointing := by
  rintro z ⟨hz, -, gz⟩ w ⟨hw, -, gw⟩ same
  funext j
  by_cases inside : j < (ofProgram p).artificialStart
  · refine eq_of_solves (ofProgram_proper h) hz hw (fun k artificial _ => gz k artificial)
      (fun k artificial _ => gw k artificial) (fun k hk => ?_) (inside.trans_le artificialStart_le)
    -- the corners have the same quantity at the variable
    have bound : (ofProgram p).lower[k]? = some (ofProgram p).lower[k] := List.getElem?_eq_getElem hk
    have entry := congrArg (·[k]?) same
    simp only [getElem?_corner, bound, Option.map_some, Option.some.injEq] at entry
    exact add_left_cancel entry
  · rw [gz j (not_lt.mp inside), gw j (not_lt.mp inside)]

theorem surjOn_corner :
    Set.SurjOn (ofProgram p).corner (ofProgram p).pointing { x | p.Feasible x } := by
  intro x feasible
  have shifted := corner_shifted_of_within (Program.Feasible.within feasible)
  obtain ⟨nonneg, meets⟩ := (feasible_corner_iff h).mp (shifted.symm ▸ feasible)
  refine ⟨(ofProgram p).lift 0 ((ofProgram p).shifted x), ⟨?_, lift_nonneg nonneg, fun j => lift_of_le⟩, ?_⟩
  · exact solves_lift (ofProgram_proper h) meets
  · exact (corner_congr fun j hj => lift_of_lt hj).trans shifted

/-- **The solutions without negative and artificial quantities are the feasible points**, one for each. -/
theorem bijOn_corner : Set.BijOn (ofProgram p).corner (ofProgram p).pointing { x | p.Feasible x } :=
  ⟨mapsTo_corner h, injOn_corner h, surjOn_corner h⟩

/-- At the solutions, the objective line that a phase starts with gives what the phase maximizes. -/
theorem excess_origin (phase : Phase) {z : ℕ → ℚ} (solves : (ofProgram p).tableau.Solves z) :
    (phase.origin (ofProgram p)).goal.excess z = phase.objective p z := by
  cases phase with
  | first => exact excess_firstStart (ofProgram_proper h) solves
  | clearing _ => exact excess_firstStart (ofProgram_proper h) solves
  | second => exact (excess_goal z).trans (weigh_map _ _ _ (fun _ => rfl) z)

end

/-! ## What turns keep -/

/-- **No pivot is on an entry that is zero.** -/
theorem Turn.nonzero (nonneg : 0 ≤ s.pivotTolerance) (turn : Turn f s (some (row, column)) m m') :
    ∃ r, m.tableau.rows[row]? = some r ∧ r.entry column ≠ 0 ∧ m'.tableau = m.tableau.pivot row column := by
  cases turn with
  | pivot iterates due left =>
    obtain ⟨r, due⟩ := Tableau.due_of_step due
    exact ⟨r, due.row_eq, due.nonzero nonneg, rfl⟩
  | driven driven =>
    obtain ⟨r, hr, -, -, beyond⟩ := drivenColumn?_eq_some driven
    exact ⟨r, hr, abs_pos.mp (nonneg.trans_lt beyond), rfl⟩

/-- **A turn keeps the tableau canonical and equivalent** to the one that its phase goes back to. -/
theorem Turn.sound (proper : f.Proper) (nonneg : 0 ≤ s.pivotTolerance)
    (sound : Tableau.Sound (m.phase.origin f) f.columnCount m.tableau) (turn : Turn f s made m m') :
    Tableau.Sound (m'.phase.origin f) f.columnCount m'.tableau := by
  cases turn with
  | pivot iterates due left =>
    obtain ⟨r, due⟩ := Tableau.due_of_step due
    exact due.sound sound nonneg
  | found due small => exact sound
  | @driven next column pivots t driven =>
    have sound' := driveOutRow_sound nonneg sound next
    rwa [driveOutRow_eq, driven] at sound'
  | kept inside kept => exact sound
  | restored finished =>
    obtain ⟨canonical, equivalent⟩ := restoreGoal_sound sound.canonical proper sound.equivalent.solves_iff
    exact ⟨canonical, equivalent⟩

theorem sound_outset (proper : f.Proper) :
    Tableau.Sound (f.outset.phase.origin f) f.columnCount f.outset.tableau := by
  unfold outset
  split
  · exact ⟨firstStart_canonical proper, .refl _⟩
  · exact ⟨tableau_canonical proper, .refl _⟩

theorem Visited.sound (proper : f.Proper) (nonneg : 0 ≤ s.pivotTolerance) (visited : Visited f s m) :
    Tableau.Sound (m.phase.origin f) f.columnCount m.tableau :=
  visited.keeps (sound_outset proper) fun _ _ _ sound turn => turn.sound proper nonneg sound

/-- All tableaus that the phases go back to have the rows of the first one. -/
theorem Phase.rows_origin (phase : Phase) : (phase.origin f).rows = f.tableau.rows := by
  cases phase <;> rfl

theorem Visited.solves_iff (proper : f.Proper) (nonneg : 0 ≤ s.pivotTolerance) (visited : Visited f s m)
    (z : ℕ → ℚ) : m.tableau.Solves z ↔ f.tableau.Solves z := by
  rw [(visited.sound proper nonneg).equivalent.solves_iff, Tableau.Solves, m.phase.rows_origin]
  rfl

/-- **The tableau at a moment of solving stands for the program.** -/
structure Moment.Represents (p : Program ℚ) (s : SolverSettings ℚ) (m : Moment ℚ) : Prop where
  /-- A pivot that is made next is on an entry that is not zero. -/
  nonzero : ∀ row column m', Turn (ofProgram p) s (some (row, column)) m m' →
    ∃ r, m.tableau.rows[row]? = some r ∧ r.entry column ≠ 0 ∧ m'.tableau = m.tableau.pivot row column
  nodup : (m.tableau.rows.map (·.basic)).Nodup
  /-- The basic columns form an identity. -/
  unit : ∀ (i k : ℕ) (r q : Row ℚ), m.tableau.rows[i]? = some r → m.tableau.rows[k]? = some q →
    r.entry q.basic = if i = k then 1 else 0
  solves_iff : ∀ z, m.tableau.Solves z ↔ (ofProgram p).tableau.Solves z
  goal_basic : ∀ r ∈ m.tableau.rows, m.tableau.goal.entry r.basic = 0
  goal_excess : ∀ z, m.tableau.Solves z → m.tableau.goal.excess z = m.phase.objective p z

/-- **Every tableau of solving stands for the program**: at every pivot tolerance that is not negative, the
solutions of the first tableau without negative and artificial quantities are the feasible points, one for
each, and at every moment of both phases and of the pass between them, up to the one that the solution is
read off, no pivot is on an entry that is zero, the basic columns are distinct and form an identity, the
solutions are those of the first tableau, and the objective line is zero in the basic columns and gives
at every solution what the phase maximizes. -/
theorem tableaus_represent (s : SolverSettings ℚ) (p : Program ℚ) (valid : p.flaw? = none)
    (nonneg : 0 ≤ s.pivotTolerance) :
    Set.BijOn (ofProgram p).corner (ofProgram p).pointing { x | p.Feasible x } ∧
      (∃ last : Moment ℚ, last.Concludes s p) ∧
      ∀ m, Visited (ofProgram p) s m → m.Represents p s := by
  have h := p.flaw?_eq_none_iff.mp valid
  refine ⟨bijOn_corner h, exists_concludes s p, fun m visited => ?_⟩
  have sound := visited.sound (ofProgram_proper h) nonneg
  have solves_iff := visited.solves_iff (ofProgram_proper h) nonneg
  exact {
    nonzero := fun row column m' turn => turn.nonzero nonneg
    nodup := sound.canonical.nodup_basic
    unit := sound.canonical.unit
    solves_iff
    goal_basic := sound.canonical.goal_basic
    goal_excess := fun z solves =>
      have first := (solves_iff z).mp solves
      (sound.equivalent.goal_eq z ((sound.equivalent.solves_iff z).mp solves)).trans
        (excess_origin h m.phase first) }

theorem tableaus_represent_repeated :
    (repeated.flaw? = none ∧ (0 : ℚ) ≤ 1e-9) ∧
    Set.BijOn (ofProgram repeated).corner (ofProgram repeated).pointing { x | repeated.Feasible x } ∧
      (∃ last : Moment ℚ, last.Concludes ⟨100, 1e-9, 1e-6⟩ repeated) ∧
      ∀ m, Visited (ofProgram repeated) ⟨100, 1e-9, 1e-6⟩ m → m.Represents repeated ⟨100, 1e-9, 1e-6⟩ := by
  have valid : repeated.flaw? = none := by decide +kernel
  have nonneg : (0 : ℚ) ≤ 1e-9 := by norm_num
  exact ⟨⟨valid, nonneg⟩, tableaus_represent ⟨100, 1e-9, 1e-6⟩ repeated valid nonneg⟩

end Allotment.Simplex
