import Allotment.Proofs.Simplex.Run

/-!
# No run is endless

Without a tolerance the pivoting ends, whatever tableau it starts from. A pivot that moves the
vertex raises the objective, the objective is decided by the basis, and there are finitely many
bases: so from some moment on the vertex stands still and the cautious rule holds. From then on
some columns enter again and again. Take the greatest of them, at a moment when it enters and at a
later one when it leaves: the objective line of the first, weighed along the ray of the second,
shows a lower column that should have been preferred at one of the two (`no_return`).
-/

namespace Allotment.Simplex
set_option autoImplicit false

open Tableau

/-- The objective line of a tableau rises in some column along a ray on which an equivalent one
gains. -/
theorem Tableau.exists_rise {u v : Tableau ℚ} {n column : ℕ} (hu : u.Canonical n) (hv : v.Canonical n)
    (equivalent : v.Equivalent u) (gains : 0 < v.goal.entry column) :
    ∃ j, 0 < u.goal.entry j * v.ray column j := by
  have rises : 0 < ∑ j ∈ Finset.range n, u.goal.entry j * v.ray column j := by
    rw [← Line.lhs_eq_sum hu.goalWidth,
      ← equivalent.goal_lhs_eq hv (fun q hq => hv.lhs_ray column hq), hv.goal_lhs_ray]
    exact gains
  by_contra none
  push Not at none
  exact absurd (Finset.sum_nonpos fun j _ => none j) (not_le.mpr rises)

/-- **A column does not both enter and leave under the cautious rule**, when each column that
became basic in between is no greater and stands at zero. -/
theorem Tableau.no_return {u v : Tableau ℚ} {n columns greatest column row : ℕ} {r : Row ℚ}
    {cautious : Bool} (hu : u.Canonical n) (hv : v.Canonical n) (equivalent : v.Equivalent u)
    (feasible : v.Feasible) (enters : u.entering? 0 columns true = some greatest)
    (other : v.entering? 0 columns cautious = some column) (lower : column < greatest)
    (leaves : v.leaving? 0 column = some row) (hr : v.rows[row]? = some r)
    (basic : r.basic = greatest) (degenerate : r.rhs = 0)
    (between : ∀ j, j ∈ v.basis → j ∉ u.basis → j ≤ greatest ∧ v.vertex j = 0) : False := by
  have mem := List.mem_of_getElem? hr
  obtain ⟨-, -, gains⟩ := entering?_eq_some other
  have free : column ∉ v.basis := fun h => gains.ne' (hv.goal_of_mem h)
  -- The objective line of the first moment rises along the ray of the second.
  obtain ⟨j, term⟩ := exists_rise hu hv equivalent gains
  by_cases same : j = column
  · -- The column itself would have been preferred at the first moment.
    rw [same, ray_self free, mul_one] at term
    exact absurd (entering?_cautious enters lower) (not_le.mpr term)
  by_cases inside : j ∈ v.basis
  · obtain ⟨q, hq, rfl⟩ := mem_basis.mp inside
    rw [hv.ray_basic free hq] at term
    have outside : q.basic ∉ u.basis := by
      intro h
      rw [hu.goal_of_mem h, zero_mul] at term
      exact lt_irrefl 0 term
    obtain ⟨le, zero⟩ := between _ inside outside
    rw [hv.vertex_basic hq] at zero
    rcases le.lt_or_eq with less | eq
    · -- A lower column gains nothing at the first moment, so it falls along the ray: its row
      -- would have been preferred at the second moment.
      have loss := entering?_cautious enters less
      have limits : 0 < q.entry column := by
        by_contra not
        have up : 0 ≤ -q.entry column := neg_nonneg.mpr (not_lt.mp not)
        exact absurd (mul_nonpos_of_nonpos_of_nonneg loss up) (not_le.mpr term)
      have first := feasible.least leaves hr hq limits
      rw [degenerate, zero, zero_div, zero_div, basic] at first
      obtain less' | ⟨-, le'⟩ := first
      · exact lt_irrefl 0 less'
      · omega
    · -- The greatest column gains at the first moment and falls along the ray.
      have row_eq := hv.row_eq hq mem (eq.trans basic.symm)
      obtain ⟨r', hr', limits⟩ := leaving?_eq_some leaves
      rw [Option.some.inj (hr'.symm.trans hr)] at limits
      obtain ⟨-, -, gain⟩ := entering?_eq_some enters
      rw [eq, row_eq] at term
      have down : u.goal.entry greatest * -r.entry column < 0 :=
        mul_neg_of_pos_of_neg gain (neg_neg_of_pos limits)
      exact absurd term (not_lt.mpr down.le)
  · rw [ray_of_not_mem inside same, mul_zero] at term
    exact lt_irrefl 0 term

/-- **A run that never ends**: at every moment a pivot is due, and it is made. -/
structure EndlessRun (columns : ℕ) where
  tableau : ℕ → Tableau ℚ
  streak : ℕ → ℕ
  row : ℕ → ℕ
  column : ℕ → ℕ
  pivotRow : ℕ → Row ℚ
  due : ∀ k, (tableau k).step 0 columns (decide (degenerateStreakLimit ≤ streak k)) =
    .pivot (row k) (column k)
  row_eq : ∀ k, (tableau k).rows[row k]? = some (pivotRow k)
  next : ∀ k, tableau (k + 1) = (tableau k).pivot (row k) (column k)
  count : ∀ k, streak (k + 1) = if (tableau k).degenerate 0 (row k) then streak k + 1 else 0

/-- What holds later and not before came to hold at some moment. -/
theorem exists_onset {P : ℕ → Prop} {a b : ℕ} (le : a ≤ b) (before : ¬P a) (after : P b) :
    ∃ k, a ≤ k ∧ k < b ∧ ¬P k ∧ P (k + 1) := by
  induction b, le using Nat.le_induction with
  | base => exact absurd after before
  | succ b le ih =>
    by_cases now : P b
    · obtain ⟨k, ge, less, onset⟩ := ih now
      exact ⟨k, ge, by omega, onset⟩
    · exact ⟨b, le, by omega, now, after⟩

namespace EndlessRun

variable {columns n : ℕ} (e : EndlessRun columns)

theorem pivot_due (k : ℕ) : (e.tableau k).Due 0 columns (e.row k) (e.column k) (e.pivotRow k) := by
  obtain ⟨r, due⟩ := due_of_step (e.due k)
  exact Option.some.inj (due.row_eq.symm.trans (e.row_eq k)) ▸ due

/-- A column enters again and again. -/
def Recurs (j : ℕ) : Prop := ∀ K, ∃ k, K ≤ k ∧ e.column k = j

/-- From some moment on only recurring columns enter. -/
theorem eventually_recurs : ∃ K, ∀ k, K ≤ k → e.Recurs (e.column k) := by
  have last : ∀ j, ∃ K, ∀ k, K ≤ k → e.column k = j → e.Recurs j := by
    intro j
    by_cases recurs : e.Recurs j
    · exact ⟨0, fun _ _ _ => recurs⟩
    · obtain ⟨K, never⟩ := not_forall.mp recurs
      exact ⟨K, fun k ge enters => (never ⟨k, ge, enters⟩).elim⟩
  choose K hK using last
  refine ⟨(Finset.range columns).sup K, fun k ge => hK _ k ?_ rfl⟩
  exact (Finset.le_sup (Finset.mem_range.mpr (e.pivot_due k).inside)).trans ge

theorem exists_greatest : ∃ j, e.Recurs j ∧ ∀ k, e.Recurs k → k ≤ j := by
  obtain ⟨K, recurs⟩ := e.eventually_recurs
  have bounded : ∀ j, e.Recurs j → j ≤ columns := by
    intro j hj
    obtain ⟨k, -, rfl⟩ := hj 0
    exact (e.pivot_due k).inside.le
  classical
  exact ⟨_, Nat.findGreatest_spec (P := e.Recurs) (bounded _ (recurs K le_rfl)) (recurs K le_rfl),
    fun k hk => Nat.le_findGreatest (bounded k hk) hk⟩

variable (canonical : (e.tableau 0).Canonical n) (feasible : (e.tableau 0).Feasible)

section Canonical
include canonical

theorem sound (k : ℕ) : Sound (e.tableau 0) n (e.tableau k) := by
  induction k with
  | zero => exact ⟨canonical, .refl _⟩
  | succ k ih =>
    rw [e.next]
    exact (e.pivot_due k).sound ih le_rfl

theorem equivalent (k m : ℕ) : (e.tableau k).Equivalent (e.tableau m) :=
  (e.sound canonical k).equivalent.trans (e.sound canonical m).equivalent.symm

theorem mem_basis_succ (k : ℕ) {j : ℕ} : j ∈ (e.tableau (k + 1)).basis ↔
    j = e.column k ∨ j ∈ (e.tableau k).basis ∧ j ≠ (e.pivotRow k).basic := by
  rw [e.next]
  exact (e.sound canonical k).canonical.mem_basis_pivot (e.row_eq k)

/-- The basis decides the objective. -/
theorem goal_eq_of_basis_eq {k m : ℕ} (same : (e.tableau k).basis = (e.tableau m).basis) :
    (e.tableau k).goal.rhs = (e.tableau m).goal.rhs := by
  have hk := (e.sound canonical k).canonical
  have hm := (e.sound canonical m).canonical
  have equivalent := e.equivalent canonical k m
  have solves := (equivalent.solves_iff _).mp hk.solves_vertex
  have vertex : (e.tableau k).vertex = (e.tableau m).vertex :=
    hm.eq_vertex solves fun j hj => vertex_of_not_mem (same ▸ hj)
  have value := equivalent.goal_eq _ solves
  rw [hk.goal_excess_vertex, vertex, hm.goal_excess_vertex] at value
  exact neg_injective value

theorem finite_goals : (Set.range fun k => (e.tableau k).goal.rhs).Finite := by
  classical
  let goal (basis : Finset ℕ) : ℚ :=
    if h : ∃ k, (e.tableau k).basis = basis then (e.tableau h.choose).goal.rhs else 0
  refine ((Finset.range n).powerset.finite_toSet.image goal).subset ?_
  rintro _ ⟨k, rfl⟩
  have visited : ∃ m, (e.tableau m).basis = (e.tableau k).basis := ⟨k, rfl⟩
  refine ⟨(e.tableau k).basis, Finset.mem_coe.mpr (Finset.mem_powerset.mpr ?_), ?_⟩
  · exact (e.sound canonical k).canonical.basis_subset
  · simp only [goal, dif_pos visited]
    exact e.goal_eq_of_basis_eq canonical visited.choose_spec

theorem vertex_eq {K : ℕ} (stands : ∀ k, K ≤ k → (e.pivotRow k).rhs = 0) {k : ℕ} (ge : K ≤ k) :
    (e.tableau k).vertex = (e.tableau K).vertex := by
  induction k, ge using Nat.le_induction with
  | base => rfl
  | succ k ge ih =>
    have here := (e.sound canonical k).canonical
    have due := e.pivot_due k
    rw [e.next, ← ih]
    exact here.vertex_pivot (e.row_eq k) (due.nonzero le_rfl) (here.goalWidth ▸ due.width) (stands k ge)

/-- A recurring column leaves after every moment at which it enters. -/
theorem exists_leaves {k : ℕ} (recurs : e.Recurs (e.column k)) :
    ∃ m, k < m ∧ (e.pivotRow m).basic = e.column k := by
  obtain ⟨later, ge, enters⟩ := recurs (k + 1)
  have inside : e.column k ∈ (e.tableau (k + 1)).basis := (e.mem_basis_succ canonical k).mpr (Or.inl rfl)
  have outside : e.column k ∉ (e.tableau later).basis := by
    rw [← enters]
    exact (e.pivot_due later).free (e.sound canonical later).canonical le_rfl
  obtain ⟨m, ge', -, basic, gone⟩ := exists_onset (P := fun m => e.column k ∉ (e.tableau m).basis) ge
    (not_not.mpr inside) outside
  refine ⟨m, by omega, ?_⟩
  by_contra ne
  exact gone ((e.mem_basis_succ canonical m).mpr (Or.inr ⟨not_not.mp basic, Ne.symm ne⟩))

end Canonical

/-- What the objective gains at a moment. -/
theorem gain (k : ℕ) : -(e.tableau (k + 1)).goal.rhs = -(e.tableau k).goal.rhs +
    (e.tableau k).goal.entry (e.column k) * ((e.pivotRow k).rhs / (e.pivotRow k).entry (e.column k)) := by
  rw [e.next]
  exact (e.pivot_due k).gain

section Feasible
include feasible

theorem feasible_at (k : ℕ) : (e.tableau k).Feasible := by
  induction k with
  | zero => exact feasible
  | succ k ih =>
    rw [e.next]
    exact ih.step (e.due k)

theorem rhs_nonneg (k : ℕ) : 0 ≤ (e.pivotRow k).rhs := e.feasible_at feasible k _ (e.pivot_due k).mem

theorem goal_antitone : Antitone fun k => (e.tableau k).goal.rhs := by
  apply antitone_nat_of_succ_le
  intro k
  have gained := (e.pivot_due k).gain_nonneg (e.rhs_nonneg feasible k)
  linarith [e.gain k]

/-- A pivot that leaves the objective as it is has no right-hand side in its row. -/
theorem rhs_eq_zero {k : ℕ} (same : (e.tableau (k + 1)).goal.rhs = (e.tableau k).goal.rhs) :
    (e.pivotRow k).rhs = 0 := by
  by_contra nonzero
  have gained := (e.pivot_due k).gain_pos_iff.mpr (lt_of_le_of_ne (e.rhs_nonneg feasible k) (Ne.symm nonzero))
  linarith [e.gain k]

theorem degenerate_iff (k : ℕ) : (e.tableau k).degenerate 0 (e.row k) = true ↔ (e.pivotRow k).rhs = 0 := by
  rw [degenerate_eq (e.row_eq k), decide_eq_true_eq]
  exact ⟨fun le => le_antisymm le (e.rhs_nonneg feasible k), fun zero => zero.le⟩

end Feasible

include canonical feasible

/-- From some moment on the vertex stands still. -/
theorem eventually_degenerate : ∃ K, ∀ k, K ≤ k → (e.pivotRow k).rhs = 0 := by
  obtain ⟨_, ⟨K, rfl⟩, least⟩ :=
    (Set.range fun k => (e.tableau k).goal.rhs).exists_min_image id (e.finite_goals canonical) ⟨_, 0, rfl⟩
  have settled : ∀ k, K ≤ k → (e.tableau k).goal.rhs = (e.tableau K).goal.rhs := fun k ge =>
    le_antisymm (e.goal_antitone feasible ge) (least _ ⟨k, rfl⟩)
  refine ⟨K, fun k ge => e.rhs_eq_zero feasible ?_⟩
  rw [settled k ge, settled (k + 1) (by omega)]

/-- From some moment on the vertex stands still and the cautious rule holds. -/
theorem eventually_cautious : ∃ K, ∀ k, K ≤ k →
    (e.pivotRow k).rhs = 0 ∧ degenerateStreakLimit ≤ e.streak k := by
  obtain ⟨K, stands⟩ := e.eventually_degenerate canonical feasible
  have grows : ∀ i, i ≤ e.streak (K + i) := by
    intro i
    induction i with
    | zero => exact Nat.zero_le _
    | succ i ih =>
      have degenerate := (e.degenerate_iff feasible (K + i)).mpr (stands _ (by omega))
      rw [← add_assoc, e.count, if_pos degenerate]
      omega
  refine ⟨K + degenerateStreakLimit, fun k ge => ⟨stands k (by omega), ?_⟩⟩
  have long := grows (k - K)
  rw [show K + (k - K) = k by omega] at long
  omega

/-- **There is no endless run** from a canonical and feasible tableau. -/
theorem false : False := by
  obtain ⟨K, cautious⟩ := e.eventually_cautious canonical feasible
  obtain ⟨L, recurs⟩ := e.eventually_recurs
  obtain ⟨greatest, again, above⟩ := e.exists_greatest
  obtain ⟨k, late, enters⟩ := again (max K L)
  have returns : e.Recurs (e.column k) := enters ▸ again
  obtain ⟨m, after, leaves⟩ := e.exists_leaves canonical returns
  have vertex : ∀ i, K ≤ i → (e.tableau i).vertex = (e.tableau K).vertex := fun i =>
    e.vertex_eq canonical (fun i ge => (cautious i ge).1)
  have hk := (e.sound canonical k).canonical
  have hm := (e.sound canonical m).canonical
  have lower : e.column m < e.column k := by
    have le := above _ (recurs m (by omega))
    have free := (e.pivot_due m).free hm le_rfl
    have basic : e.column k ∈ (e.tableau m).basis := leaves ▸ basic_mem_basis (e.pivot_due m).mem
    have ne : e.column m ≠ e.column k := fun same => free (same ▸ basic)
    omega
  obtain ⟨entering, -⟩ := step_eq_pivot (e.due k)
  rw [decide_eq_true (cautious k (by omega)).2] at entering
  obtain ⟨other, leaving⟩ := step_eq_pivot (e.due m)
  refine no_return hk hm (e.equivalent canonical m k) (e.feasible_at feasible m) entering other lower
    leaving (e.row_eq m) leaves (cautious m (by omega)).1 fun j inside outside => ⟨?_, ?_⟩
  · -- A column that became basic in between entered in between.
    obtain ⟨i, ge, -, absent, present⟩ := exists_onset (P := fun i => j ∈ (e.tableau i).basis)
      after.le outside inside
    obtain same | ⟨old, -⟩ := (e.mem_basis_succ canonical i).mp present
    · rw [same, enters]
      exact above _ (recurs i (by omega))
    · exact absurd old absent
  · rw [vertex m (by omega), ← vertex k (by omega), vertex_of_not_mem outside]

end EndlessRun

/-! ## From a budget that never suffices to an endless run -/

namespace Tableau

/-- However many pivots a run is given, it needs more. -/
def NeverEnds (columns streak : ℕ) (t : Tableau ℚ) : Prop :=
  ∀ budget, ∃ pivots, (runFrom 0 columns budget streak pivots t).stop = .limit

/-- The streak and the tableau after the pivot that is due. -/
def advance (columns : ℕ) (s : ℕ × Tableau ℚ) : ℕ × Tableau ℚ :=
  match s.2.step 0 columns (decide (degenerateStreakLimit ≤ s.1)) with
  | .pivot row column => (if s.2.degenerate 0 row then s.1 + 1 else 0, s.2.pivot row column)
  | _ => s

variable {t : Tableau ℚ} {n columns streak : ℕ}

theorem NeverEnds.due (h : NeverEnds columns streak t) : ∃ row column,
    t.step 0 columns (decide (degenerateStreakLimit ≤ streak)) = .pivot row column ∧
      NeverEnds columns (if t.degenerate 0 row then streak + 1 else 0) (t.pivot row column) := by
  cases due : t.step 0 columns (decide (degenerateStreakLimit ≤ streak)) with
  | optimal =>
    obtain ⟨pivots, limit⟩ := h 0
    rw [runFrom_eq, due] at limit
    cases limit
  | unbounded =>
    obtain ⟨pivots, limit⟩ := h 0
    rw [runFrom_eq, due] at limit
    cases limit
  | pivot row column =>
    refine ⟨row, column, rfl, fun budget => ?_⟩
    obtain ⟨pivots, limit⟩ := h (budget + 1)
    rw [runFrom_eq, due] at limit
    exact ⟨pivots + 1, limit⟩

theorem NeverEnds.iterate (h : NeverEnds columns streak t) (k : ℕ) :
    NeverEnds columns ((advance columns)^[k] (streak, t)).1 ((advance columns)^[k] (streak, t)).2 := by
  induction k with
  | zero => exact h
  | succ k ih =>
    obtain ⟨row, column, due, later⟩ := ih.due
    rw [Function.iterate_succ_apply', advance, due]
    exact later

/-- **Without a tolerance some number of pivots suffices**, from every canonical and feasible
tableau. -/
theorem exists_budget (canonical : t.Canonical n) (feasible : t.Feasible) (columns : ℕ) :
    ∃ budget, ∀ budget', budget ≤ budget' → ∀ pivots,
      (runFrom 0 columns budget' 0 pivots t).stop ≠ .limit := by
  by_contra none
  have never : NeverEnds columns 0 t := by
    intro budget
    by_contra ends
    push Not at ends
    refine none ⟨budget, fun budget' more pivots => ?_⟩
    rw [runFrom_of_le more (ends pivots)]
    exact ends pivots
  choose row column due later using fun k => (never.iterate k).due
  choose pivotRow pivotDue using fun k => due_of_step (due k)
  have next : ∀ k, (advance columns)^[k + 1] (0, t) =
      (if ((advance columns)^[k] (0, t)).2.degenerate 0 (row k) then
        ((advance columns)^[k] (0, t)).1 + 1 else 0,
      ((advance columns)^[k] (0, t)).2.pivot (row k) (column k)) := by
    intro k
    rw [Function.iterate_succ_apply', advance, due]
  let run : EndlessRun columns :=
    { tableau := fun k => ((advance columns)^[k] (0, t)).2
      streak := fun k => ((advance columns)^[k] (0, t)).1
      row, column, pivotRow, due
      row_eq := fun k => (pivotDue k).row_eq
      next := fun k => congrArg Prod.snd (next k)
      count := fun k => congrArg Prod.fst (next k) }
  exact run.false canonical feasible

end Tableau

end Allotment.Simplex
