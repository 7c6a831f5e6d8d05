import Allotment.Proofs.Simplex.Choice

/-!
# Runs of pivots

What one pivot that is due keeps, a run keeps (`runFrom_invariant`): a run stays among the canonical
tableaus equivalent to a given one (`Sound`), and, without a tolerance, among the feasible ones. A
run that ends before its pivots are spent does not depend on how many it was given
(`runFrom_of_le`), and a run that is cut short has spent them all and would have taken more
(`pivots_runFrom_of_limit`, `runFrom_eq_or_limit`).
-/

namespace Allotment.Simplex
set_option autoImplicit false

namespace Tableau

/-- What is known of a pivot that is due. -/
structure Due (t : Tableau ℚ) (tolerance : ℚ) (columns row column : ℕ) (r : Row ℚ) : Prop where
  row_eq : t.rows[row]? = some r
  inside : column < columns
  width : column < t.goal.entries.length
  gains : tolerance < t.goal.entry column
  limits : tolerance < r.entry column

/-- Canonical, with the solutions and the objective of a given tableau. -/
structure Sound (u : Tableau ℚ) (n : ℕ) (t : Tableau ℚ) : Prop where
  canonical : t.Canonical n
  equivalent : t.Equivalent u

variable {t u : Tableau ℚ} {tolerance : ℚ} {n columns row column : ℕ} {cautious : Bool} {r : Row ℚ}

theorem due_of_step (h : t.step tolerance columns cautious = .pivot row column) :
    ∃ r, t.Due tolerance columns row column r := by
  obtain ⟨entering, leaving⟩ := step_eq_pivot h
  obtain ⟨inside, width, gains⟩ := entering?_eq_some entering
  obtain ⟨r, hr, limits⟩ := leaving?_eq_some leaving
  exact ⟨r, hr, inside, width, gains, limits⟩

namespace Due

variable (due : t.Due tolerance columns row column r)
include due

theorem mem : r ∈ t.rows := List.mem_of_getElem? due.row_eq

theorem nonzero (nonneg : 0 ≤ tolerance) : r.entry column ≠ 0 := (nonneg.trans_lt due.limits).ne'

/-- The entering column is not basic. -/
theorem free (canonical : t.Canonical n) (nonneg : 0 ≤ tolerance) : column ∉ t.basis := fun basic =>
  (nonneg.trans_lt due.gains).ne' (canonical.goal_of_mem basic)

theorem sound (sound : Sound u n t) (nonneg : 0 ≤ tolerance) : Sound u n (t.pivot row column) where
  canonical := sound.canonical.pivot due.row_eq (due.nonzero nonneg)
    (sound.canonical.goalWidth ▸ due.width)
  equivalent := (sound.canonical.pivot_equivalent due.row_eq (due.nonzero nonneg)).trans sound.equivalent

/-- **What a pivot gains**: what a unit of the column gains, as many times as the ratio of the row. -/
theorem gain : -(t.pivot row column).goal.rhs =
    -t.goal.rhs + t.goal.entry column * (r.rhs / r.entry column) := by
  rw [Canonical.rhs_goal_pivot due.row_eq]
  ring

end Due

namespace Due

variable (due : t.Due 0 columns row column r)
include due

theorem gain_nonneg (nonneg : 0 ≤ r.rhs) : 0 ≤ t.goal.entry column * (r.rhs / r.entry column) :=
  mul_nonneg due.gains.le (div_nonneg nonneg due.limits.le)

theorem gain_pos_iff : 0 < t.goal.entry column * (r.rhs / r.entry column) ↔ 0 < r.rhs := by
  rw [mul_pos_iff_of_pos_left due.gains, div_pos_iff_of_pos_right due.limits]

end Due

theorem degenerate_eq (hr : t.rows[row]? = some r) : t.degenerate tolerance row = decide (r.rhs ≤ tolerance) := by
  rw [degenerate, hr]

/-- The row that leaves a feasible tableau has the least ratio, and of those that have it the
lowest basic column. -/
theorem Feasible.least (feasible : t.Feasible) (leaving : t.leaving? 0 column = some row)
    (hr : t.rows[row]? = some r) {o : Row ℚ} (ho : o ∈ t.rows) (limits : 0 < o.entry column) :
    r.rhs / r.entry column < o.rhs / o.entry column ∨
      r.rhs / r.entry column = o.rhs / o.entry column ∧ r.basic ≤ o.basic := by
  have first := leaving?_least leaving hr ho limits
  rwa [ratio, ratio, positivePart_of_nonneg (feasible r (List.mem_of_getElem? hr)),
    positivePart_of_nonneg (feasible o ho)] at first

/-- **Without a tolerance a pivot that is due keeps a tableau feasible.** -/
theorem Feasible.step (feasible : t.Feasible) (h : t.step 0 columns cautious = .pivot row column) :
    (t.pivot row column).Feasible := by
  obtain ⟨r, due⟩ := due_of_step h
  obtain ⟨-, leaving⟩ := step_eq_pivot h
  apply feasible.pivot due.row_eq due.limits
  intro o ho limits
  obtain less | ⟨tie, -⟩ := feasible.least leaving due.row_eq ho limits
  · exact less.le
  · exact tie.le

/-! ## From one pivot to a run -/

section Generic

variable {α : Type} [Scalar α] {tolerance : α} {t : Tableau α}

theorem runFrom_eq (budget streak pivots : ℕ) (t : Tableau α) :
    runFrom tolerance columns budget streak pivots t =
      match t.step tolerance columns (decide (degenerateStreakLimit ≤ streak)) with
      | .optimal => { stop := .optimal, tableau := t, pivots }
      | .unbounded => { stop := .unbounded, tableau := t, pivots }
      | .pivot row column =>
        match budget with
        | 0 => { stop := .limit, tableau := t, pivots }
        | budget + 1 =>
          runFrom tolerance columns budget (if t.degenerate tolerance row then streak + 1 else 0)
            (pivots + 1) (t.pivot row column) :=
  (runFrom.eq_def tolerance columns budget streak pivots t).trans rfl

/-- **What every due pivot keeps, a run keeps.** -/
theorem runFrom_invariant {P : Tableau α → Prop}
    (keeps : ∀ t cautious row column, P t → t.step tolerance columns cautious = .pivot row column →
      P (t.pivot row column)) {budget streak pivots : ℕ} (start : P t) :
    P (runFrom tolerance columns budget streak pivots t).tableau := by
  induction budget generalizing streak pivots t with
  | zero =>
    rw [runFrom_eq]
    split <;> exact start
  | succ budget ih =>
    rw [runFrom_eq]
    split
    · exact start
    · exact start
    · next due => exact ih (keeps t _ _ _ start due)

/-! A budget only cuts a run short. -/

theorem pivots_runFrom_bounds {budget streak pivots : ℕ} :
    pivots ≤ (runFrom tolerance columns budget streak pivots t).pivots ∧
      (runFrom tolerance columns budget streak pivots t).pivots ≤ pivots + budget := by
  induction budget generalizing streak pivots t with
  | zero =>
    rw [runFrom_eq]
    split <;> exact ⟨le_rfl, le_rfl⟩
  | succ budget ih =>
    rw [runFrom_eq]
    split
    · exact ⟨le_rfl, Nat.le_add_right _ _⟩
    · exact ⟨le_rfl, Nat.le_add_right _ _⟩
    · exact ⟨(Nat.le_succ _).trans ih.1, ih.2.trans (by omega)⟩

/-- **A run that is cut short has spent its budget.** -/
theorem pivots_runFrom_of_limit {budget streak pivots : ℕ}
    (cut : (runFrom tolerance columns budget streak pivots t).stop = .limit) :
    (runFrom tolerance columns budget streak pivots t).pivots = pivots + budget := by
  induction budget generalizing streak pivots t with
  | zero =>
    rw [runFrom_eq]
    split <;> rfl
  | succ budget ih =>
    rw [runFrom_eq] at cut ⊢
    cases h : t.step tolerance columns (decide (degenerateStreakLimit ≤ streak)) with
    | optimal => simp [h] at cut
    | unbounded => simp [h] at cut
    | pivot row column =>
      simp only [h] at cut ⊢
      rw [ih cut]
      omega

/-- A run that ends before its budget is spent ends so under every greater budget. -/
theorem runFrom_of_le {budget budget' streak pivots : ℕ} (more : budget ≤ budget')
    (ends : (runFrom tolerance columns budget streak pivots t).stop ≠ .limit) :
    runFrom tolerance columns budget' streak pivots t =
      runFrom tolerance columns budget streak pivots t := by
  induction budget generalizing budget' streak pivots t with
  | zero =>
    rw [runFrom_eq] at ends ⊢
    rw [runFrom_eq]
    split
    · rfl
    · rfl
    · next due => simp [due] at ends
  | succ budget ih =>
    obtain ⟨budget', rfl⟩ : ∃ b, budget' = b + 1 := ⟨budget' - 1, by omega⟩
    rw [runFrom_eq] at ends ⊢
    rw [runFrom_eq (budget + 1)]
    cases h : t.step tolerance columns (decide (degenerateStreakLimit ≤ streak)) with
    | optimal => rfl
    | unbounded => rfl
    | pivot row column =>
      simp only [h] at ends
      exact ih (by omega) ends

/-- **A run that ends takes more pivots than any budget that cuts it short.** -/
theorem lt_pivots_runFrom {budget budget' streak pivots : ℕ}
    (cut : (runFrom tolerance columns budget streak pivots t).stop = .limit)
    (ends : (runFrom tolerance columns budget' streak pivots t).stop ≠ .limit) :
    pivots + budget < (runFrom tolerance columns budget' streak pivots t).pivots := by
  induction budget generalizing budget' streak pivots t with
  | zero =>
    rw [runFrom_eq] at cut ends ⊢
    cases h : t.step tolerance columns (decide (degenerateStreakLimit ≤ streak)) with
    | optimal => simp [h] at cut
    | unbounded => simp [h] at cut
    | pivot row column =>
      cases budget' with
      | zero => simp [h] at ends
      | succ budget' => exact pivots_runFrom_bounds.1
  | succ budget ih =>
    rw [runFrom_eq] at cut ends ⊢
    cases h : t.step tolerance columns (decide (degenerateStreakLimit ≤ streak)) with
    | optimal => simp [h] at cut
    | unbounded => simp [h] at cut
    | pivot row column =>
      cases budget' with
      | zero => simp [h] at ends
      | succ budget' =>
        simp only [h] at cut ends ⊢
        have more := ih cut ends
        omega

/-- **Under another budget a run that ends is the same run, or cut short.** -/
theorem runFrom_eq_or_limit (budget : ℕ) {budget' streak pivots : ℕ}
    (ends : (runFrom tolerance columns budget' streak pivots t).stop ≠ .limit) :
    runFrom tolerance columns budget streak pivots t = runFrom tolerance columns budget' streak pivots t ∨
      (runFrom tolerance columns budget streak pivots t).stop = .limit ∧
        pivots + budget < (runFrom tolerance columns budget' streak pivots t).pivots := by
  by_cases cut : (runFrom tolerance columns budget streak pivots t).stop = .limit
  · exact Or.inr ⟨cut, lt_pivots_runFrom cut ends⟩
  · left
    obtain more | fewer := le_total budget budget'
    · exact (runFrom_of_le more cut).symm
    · exact runFrom_of_le fewer ends

end Generic

theorem Sound.run (sound : Sound u n t) (nonneg : 0 ≤ tolerance) (cap pivots : ℕ) :
    Sound u n (t.run tolerance columns cap pivots).tableau := by
  refine runFrom_invariant (fun t cautious row column sound h => ?_) sound
  obtain ⟨r, due⟩ := due_of_step h
  exact due.sound sound nonneg

theorem Feasible.run (feasible : t.Feasible) (cap pivots : ℕ) :
    (t.run 0 columns cap pivots).tableau.Feasible :=
  runFrom_invariant (fun _ _ _ _ feasible h => feasible.step h) feasible

/-- A run that ends for another cause than its budget ends where no pivot is due. -/
theorem runFrom_stop {budget streak pivots : ℕ} :
    let run := runFrom tolerance columns budget streak pivots t
    (run.stop = .optimal → ∃ cautious, run.tableau.step tolerance columns cautious = .optimal) ∧
      (run.stop = .unbounded → ∃ cautious, run.tableau.step tolerance columns cautious = .unbounded) := by
  induction budget generalizing streak pivots t with
  | zero =>
    rw [runFrom_eq]
    split
    · next h => exact ⟨fun _ => ⟨_, h⟩, nofun⟩
    · next h => exact ⟨nofun, fun _ => ⟨_, h⟩⟩
    · exact ⟨nofun, nofun⟩
  | succ budget ih =>
    rw [runFrom_eq]
    split
    · next h => exact ⟨fun _ => ⟨_, h⟩, nofun⟩
    · next h => exact ⟨nofun, fun _ => ⟨_, h⟩⟩
    · exact ih

/-- **No column gains at the end of an optimal run.** -/
theorem run_optimal (nonneg : 0 ≤ tolerance) {cap pivots : ℕ}
    (stop : (t.run tolerance columns cap pivots).stop = .optimal) {j : ℕ} (hj : j < columns) :
    (t.run tolerance columns cap pivots).tableau.goal.entry j ≤ tolerance := by
  obtain ⟨cautious, h⟩ := runFrom_stop.1 stop
  exact entering?_eq_none nonneg (step_eq_optimal h) hj

/-- **Some column gains without limit at the end of an unbounded run.** -/
theorem run_unbounded {cap pivots : ℕ}
    (stop : (t.run tolerance columns cap pivots).stop = .unbounded) :
    ∃ column < columns, tolerance < (t.run tolerance columns cap pivots).tableau.goal.entry column ∧
      ∀ r ∈ (t.run tolerance columns cap pivots).tableau.rows, r.entry column ≤ tolerance := by
  obtain ⟨cautious, h⟩ := runFrom_stop.2 stop
  obtain ⟨column, entering, leaving⟩ := step_eq_unbounded h
  obtain ⟨inside, -, gains⟩ := entering?_eq_some entering
  exact ⟨column, inside, gains, fun r hr => leaving?_eq_none leaving hr⟩

end Tableau

end Allotment.Simplex
