import Allotment.Proofs.Simplex.Duality
import Allotment.Proofs.Termination

/-!
# The maximum of a standard form

What the simplex method is good for beyond its own answers: a standard form whose rows can be met and
whose gains are bounded has a point where they are greatest (`exists_maximum`). Enough pivots lead to
a tableau where no column gains, and its vertex is that point.
-/

namespace Allotment.Simplex.StandardForm
set_option autoImplicit false

/-- The points that the variables of a standard form allow when its right-hand sides are moved by a
shift: quantities that are not negative and meet the rows. -/
structure Reaches (f : StandardForm ℚ) (shift z : ℕ → ℚ) : Prop where
  nonneg : ∀ j < f.variableCount, 0 ≤ z j
  meets : f.Meets shift z

variable {f : StandardForm ℚ} (proper : f.Proper)
include proper

theorem Ready.reaches_vertex {t : Tableau ℚ} (ready : f.Ready t) : f.Reaches 0 t.vertex :=
  ⟨fun j _ => ready.nonneg_vertex j, ready.meets_vertex proper⟩

/-- No column of a ready tableau gains without limit where the gains are bounded. -/
theorem Ready.not_unlimited {t : Tableau ℚ} (ready : f.Ready t) {bound : ℚ}
    (bounded : ∀ z, f.Reaches 0 z → weigh f.gains z ≤ bound) {column : ℕ}
    (inside : column < f.artificialStart) (gains : 0 < t.goal.entry column) :
    ¬∀ r ∈ t.rows, r.entry column ≤ 0 := by
  intro unlimited
  have free := fun basic => gains.ne' (ready.sound.canonical.goal_of_mem basic)
  -- far enough out the ray would pass the bound
  obtain ⟨far, enough⟩ := exists_lt_nsmul gains (bound + t.goal.rhs)
  rw [nsmul_eq_mul] at enough
  have hfar : (0 : ℚ) ≤ far := Nat.cast_nonneg far
  have along := bounded (t.vertex + (far : ℚ) • t.ray column)
    ⟨fun j _ => ready.sound.canonical.nonneg_along ready.feasible free unlimited hfar j,
      ready.meets_along proper inside free unlimited hfar⟩
  rw [ready.weigh_gains_along] at along
  linarith

/-- **Enough pivots lead to a tableau where no column gains.** -/
theorem exists_ready_optimal {z : ℕ → ℚ} (reaches : f.Reaches 0 z) {bound : ℚ}
    (bounded : ∀ z, f.Reaches 0 z → weigh f.gains z ≤ bound) :
    ∃ t, f.Ready t ∧ ∀ j < f.artificialStart, t.goal.entry j ≤ 0 := by
  obtain ⟨first, ends⟩ := exists_firstRun proper
  cases start : f.start ⟨first, 0, 0⟩ with
  | limit pivots => exact absurd (start_eq_limit start) (ends first le_rfl)
  | infeasible t pivots =>
    exact absurd (solves_lift proper reaches.meets)
      (start_infeasible proper rfl rfl start (lift_nonneg reaches.nonneg) lift_genuine)
  | feasible t pivots =>
    have ready := start_ready proper rfl rfl start
    obtain ⟨second, ends'⟩ := exists_secondPhase ready pivots
    have last : f.Ready (f.secondPhase ⟨second, 0, 0⟩ t pivots).tableau := ready.run rfl pivots
    cases stop : (f.secondPhase ⟨second, 0, 0⟩ t pivots).stop with
    | limit => exact absurd stop (ends' second le_rfl)
    | optimal => exact ⟨_, last, fun j hj => Tableau.run_optimal le_rfl stop hj⟩
    | unbounded =>
      obtain ⟨column, inside, gains, unlimited⟩ := Tableau.run_unbounded stop
      exact absurd unlimited (last.not_unlimited proper bounded inside gains)

/-- **Bounded gains have a maximum.** -/
theorem exists_maximum {z : ℕ → ℚ} (reaches : f.Reaches 0 z) {bound : ℚ}
    (bounded : ∀ z, f.Reaches 0 z → weigh f.gains z ≤ bound) :
    ∃ best, f.Reaches 0 best ∧ ∀ z, f.Reaches 0 z → weigh f.gains z ≤ weigh f.gains best := by
  obtain ⟨t, ready, loses⟩ := exists_ready_optimal proper reaches bounded
  exact ⟨t.vertex, ready.reaches_vertex proper,
    fun z reaches => ready.weigh_gains_le proper loses reaches.nonneg reaches.meets⟩

end Allotment.Simplex.StandardForm
