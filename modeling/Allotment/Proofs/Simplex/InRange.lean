import Allotment.Proofs.Simplex.Shape

/-!
# No index is out of range

Solving with every index checked comes to the same as solving, for every program with one coefficient
per variable everywhere (`solveStrictly_eq`): whatever the numbers, the tolerances and the cap on
pivots are, no list is read or written past its end, no lists of different lengths are joined, and
every tableau on the way is rectangular. One lemma per function of `Strict` says under what condition
it comes to the same as the function without checks; `Allotment.Proofs.Simplex.Shape` is where the
conditions come from.
-/

namespace Allotment.Simplex
set_option autoImplicit false

namespace Strict

/-! ## Lists -/

section Lists

variable {β γ σ : Type}

theorem set_eq {xs : List β} {index : ℕ} (inside : index < xs.length) (x : β) :
    set xs index x = some (xs.set index x) := if_pos inside

theorem ofLength_eq {xs : List β} {length : ℕ} (same : xs.length = length) :
    ofLength length xs = some xs := if_pos same

theorem mapM_eq_some {f : β → Option γ} {xs : List β} {ys : List γ} (same : ys.length = xs.length)
    (each : ∀ i (hx : i < xs.length) (hy : i < ys.length), f xs[i] = some ys[i]) :
    xs.mapM f = some ys := by
  induction xs generalizing ys with
  | nil => rw [List.length_eq_zero_iff.mp same]; rfl
  | cons x xs ih =>
    obtain _ | ⟨y, ys⟩ := ys
    · cases same
    · have first : f x = some y := each 0 (by simp) (by simp)
      have rest := ih (Nat.succ.inj same) fun i hx hy =>
        each (i + 1) (Nat.succ_lt_succ hx) (Nat.succ_lt_succ hy)
      rw [List.mapM_cons, first, rest]
      rfl

theorem mapM_eq_some_map {f : β → Option γ} {g : β → γ} {xs : List β}
    (each : ∀ x ∈ xs, f x = some (g x)) : xs.mapM f = some (xs.map g) :=
  mapM_eq_some (List.length_map _) fun i hx _ => by
    rw [each _ (List.getElem_mem hx), List.getElem_map]

/-- A fold whose steps go through and keep an invariant goes through and keeps it. -/
theorem foldlM_eq_some {f : σ → β → Option σ} {g : σ → β → σ} (P : σ → Prop) (xs : List β)
    (each : ∀ x ∈ xs, ∀ a, P a → f a x = some (g a x) ∧ P (g a x)) {a : σ} (start : P a) :
    xs.foldlM f a = some (xs.foldl g a) ∧ P (xs.foldl g a) := by
  induction xs generalizing a with
  | nil => exact ⟨rfl, start⟩
  | cons x xs ih =>
    obtain ⟨here, next⟩ := each x List.mem_cons_self a start
    rw [List.foldlM_cons, here, List.foldl_cons]
    exact ih (fun y hy => each y (List.mem_cons_of_mem _ hy)) next

theorem range_mapM_getElem? {xs : List β} {count : ℕ} (le : count ≤ xs.length) :
    (List.range count).mapM (xs[·]?) = some (xs.take count) := by
  have length : (xs.take count).length = (List.range count).length := by simp [le]
  refine mapM_eq_some length fun i hx hy => ?_
  rw [List.getElem_range, List.getElem_take, List.getElem?_eq_getElem]

end Lists

variable {α : Type} [Scalar α] {l m : Line α} {t : Tableau α} {r : Row α} {tolerance : α}
  {width columns row column : ℕ}

/-! ## Lines and pivots -/

theorem getElem?_entries (inside : column < l.entries.length) :
    l.entries[column]? = some (l.entry column) := by
  rw [Line.entry, List.getD_eq_getElem _ _ inside, List.getElem?_eq_getElem inside]

theorem add_eq (same : l.entries.length = m.entries.length) : add l m = some (l.add m) := by
  rw [add, ofLength_eq same.symm]
  rfl

theorem clear_eq (same : l.entries.length = m.entries.length) (inside : column < l.entries.length) :
    clear l column m = some (l.clear column m) := by
  rw [clear, getElem?_entries inside, Line.clear]
  simp only [Option.bind_eq_bind, Option.bind_some]
  split
  · rfl
  · rw [ofLength_eq same.symm]
    rfl

theorem pivot_eq (h : t.Rectangular width) (hrow : row < t.rows.length) (hcolumn : column < width) :
    pivot width t row column = some (t.pivot row column) := by
  have after : rectangular width (t.pivot row column) = some (t.pivot row column) :=
    if_pos (h.pivot hcolumn row)
  have found : t.rows[row]? = some t.rows[row] := List.getElem?_eq_getElem hrow
  generalize t.rows[row] = r at found
  have wide : r.entries.length = width := h.row_width (List.mem_of_getElem? found)
  have unit : (r.toLine.divide (r.entry column)).entries.length = width := by
    rw [Line.width_divide, wide]
  have others : t.rows.zipIdx.mapM (fun p => if p.2 = row
        then some { r.toLine.divide (r.entry column) with basic := column }
        else clearRow p.1 column (r.toLine.divide (r.entry column))) =
      some (t.pivot row column).rows := by
    simp only [Tableau.pivot, found, List.mapIdx_eq_zipIdx_map]
    refine mapM_eq_some_map fun p mem => ?_
    split
    · rfl
    · have own := h.row_width (List.fst_mem_of_mem_zipIdx mem)
      rw [clearRow, clear_eq (own.trans unit.symm) (own.symm ▸ hcolumn)]
      rfl
  have goal : clear t.goal column (r.toLine.divide (r.entry column)) =
      some (t.pivot row column).goal := by
    simp only [Tableau.pivot, found]
    exact clear_eq (h.goal_width.trans unit.symm) (h.goal_width.symm ▸ hcolumn)
  simp only [pivot, found, getElem?_entries (wide.symm ▸ hcolumn), Option.bind_eq_bind,
    Option.bind_some]
  rw [others, goal]
  exact after

/-! ## Runs of pivots -/

theorem entering_eq (h : t.Rectangular width) (le : columns ≤ width) (cautious : Bool) :
    entering t tolerance columns cautious = some (t.entering? tolerance columns cautious) := by
  rw [entering, range_mapM_getElem? (h.goal_width.symm ▸ le)]
  rfl

theorem leaving_eq (h : t.Rectangular width) (inside : column < width) :
    leaving t tolerance column = some (t.leaving? tolerance column) := by
  have each : t.rows.zipIdx.mapM (fun p => candidate tolerance column p.1 p.2) =
      some (t.rows.zipIdx.map fun p => if p.1.entry column ≤ tolerance then none
        else some { ratio := positivePart p.1.rhs / p.1.entry column, row := p.2, basic := p.1.basic }) := by
    refine mapM_eq_some_map fun p mem => ?_
    have own := h.row_width (List.fst_mem_of_mem_zipIdx mem)
    simp only [candidate, getElem?_entries (own.symm ▸ inside), Option.bind_eq_bind, Option.bind_some]
    rfl
  simp only [leaving, each, Option.bind_eq_bind, Option.bind_some, List.filterMap_map]
  rfl

theorem step_eq (h : t.Rectangular width) (le : columns ≤ width) (cautious : Bool) :
    step t tolerance columns cautious = some (t.step tolerance columns cautious) := by
  rw [step, entering_eq h le, Tableau.step]
  cases enters : t.entering? tolerance columns cautious with
  | none => rfl
  | some column =>
    have inside := (Tableau.entering?_lt enters).1.trans_le le
    simp only [leaving_eq h inside, Option.bind_eq_bind, Option.bind_some]
    cases t.leaving? tolerance column <;> rfl

theorem runFrom_eq (tolerance : α) (le : columns ≤ width) (budget streak pivots : ℕ) (h : t.Rectangular width) :
    runFrom tolerance columns width budget streak pivots t =
      some (Tableau.runFrom tolerance columns budget streak pivots t) := by
  induction budget generalizing streak pivots t with
  | zero =>
    rw [runFrom, step_eq h le, Tableau.runFrom_eq]
    cases t.step tolerance columns (decide (degenerateStreakLimit ≤ streak)) <;> rfl
  | succ budget ih =>
    rw [runFrom, step_eq h le, Tableau.runFrom_eq]
    cases due : t.step tolerance columns (decide (degenerateStreakLimit ≤ streak)) with
    | optimal => rfl
    | unbounded => rfl
    | pivot row column =>
      obtain ⟨hrow, hcolumn⟩ := Tableau.step_bounds due
      have inside := hcolumn.trans_le le
      have found : t.rows[row]? = some t.rows[row] := List.getElem?_eq_getElem hrow
      simp only [pivot_eq h hrow inside, found, ih _ _ (h.pivot inside row), Tableau.degenerate,
        decide_eq_true_eq, Option.bind_eq_bind, Option.bind_some]

/-! ## From a program to a tableau and back -/

omit [Scalar α] in
/-- Writing into the columns after those of a row. -/
theorem set_auxiliary {entries : List α} {first count j : ℕ} (wide : entries.length = first)
    (lo : first ≤ j) (hi : j < first + count) (entry : ℕ → α) (x : α) :
    set (entries ++ (List.range' first count).map entry) j x =
      some (entries ++ (List.range' first count).map (Function.update entry j x)) := by
  subst wide
  rw [set_eq (by simpa using hi), List.set_append_right _ _ lo]
  congr 2
  refine List.ext_getElem (by simp) fun i hi _ => ?_
  have here : entries.length + i = j ↔ j - entries.length = i := by omega
  simp [List.getElem_set, Function.update_apply, here]

variable {f : StandardForm α} {s : SolverSettings α}

theorem equation_eq (h : f.Rectangular) {r : StandardRow α} (hr : r ∈ f.rows) {slot : Slot}
    (hs : slot ∈ f.slots) : equation f r slot = some (f.equation r slot) := by
  have wide := h.rows r hr
  have total := StandardForm.columnCount_eq (f := f)
  have low := StandardForm.variableCount_le (f := f)
  have high := StandardForm.artificialStart_le (f := f)
  have within := StandardForm.within_slot hs
  have blank : List.replicate (f.slackCount + f.artificialCount) (0 : α) =
      f.auxiliaryColumns.map fun _ => 0 := by
    rw [List.map_const', StandardForm.length_auxiliaryColumns]
  rw [equation, ofLength_eq wide, blank, StandardForm.equation]
  cases slot with
  | slack s =>
    obtain ⟨lo, hi⟩ := within
    have entry : Function.update (fun _ => 0) s 1 = (Slot.slack s).entry (α := α) := by
      funext c
      rw [Function.update_apply]
      rfl
    simp only [StandardForm.auxiliaryColumns, Option.bind_eq_bind, Option.bind_some]
    rw [set_auxiliary wide lo (by omega), entry]
    rfl
  | surplus s a =>
    obtain ⟨lo, hi, lo', hi'⟩ := within
    have apart : ∀ c, c = a → c ≠ s := by omega
    have entry : Function.update (Function.update (fun _ => 0) s (-1)) a 1 =
        (Slot.surplus s a).entry (α := α) := by
      funext c
      simp only [Function.update_apply, Slot.entry]
      split
      · next here => rw [if_neg (apart c here)]
      · rfl
    simp only [StandardForm.auxiliaryColumns, Option.bind_eq_bind, Option.bind_some]
    rw [set_auxiliary wide lo (by omega), Option.bind_some, set_auxiliary wide (by omega) (by omega),
      entry]
    rfl
  | artificial a =>
    obtain ⟨lo, hi⟩ := within
    have entry : Function.update (fun _ => 0) a 1 = (Slot.artificial a).entry (α := α) := by
      funext c
      rw [Function.update_apply]
      rfl
    simp only [StandardForm.auxiliaryColumns, Option.bind_eq_bind, Option.bind_some]
    rw [set_auxiliary wide (by omega) (by omega), entry]
    rfl

theorem tableau_eq (h : f.Rectangular) : tableau f = some f.tableau := by
  have rows : (f.rows.zip f.slots).mapM (fun p => equation f p.1 p.2) = some f.tableau.rows := by
    rw [StandardForm.tableau, ← List.map_uncurry_zip_eq_zipWith]
    refine mapM_eq_some_map fun p mem => ?_
    obtain ⟨hr, hs⟩ := List.of_mem_zip mem
    exact equation_eq h hr hs
  simp only [tableau, ofLength_eq StandardForm.length_slots, ofLength_eq h.gains, rows,
    Option.bind_eq_bind, Option.bind_some]
  exact if_pos h.tableau

theorem point_eq (t : Tableau α) : point f t = some (f.point t) := by
  refine (foldlM_eq_some (fun values => values.length = f.variableCount) t.rows
    (fun r _ values wide => ?_) rfl).1
  by_cases inside : r.basic < f.variableCount
  · have found : r.basic < values.length := wide.symm ▸ inside
    simp only [if_pos inside, List.getElem?_eq_getElem found, Option.bind_eq_bind, Option.bind_some,
      set_eq found, List.modify_eq_set_get _ found, List.length_set]
    exact ⟨rfl, wide⟩
  · simp only [if_neg inside]
    exact ⟨trivial, wide⟩

/-! ## The two phases -/

theorem auxiliaryGoal_eq (h : t.Rectangular f.columnCount) :
    auxiliaryGoal f t = some (f.auxiliaryGoal t) ∧
      (f.auxiliaryGoal t).entries.length = f.columnCount := by
  refine foldlM_eq_some (fun goal : Line α => goal.entries.length = f.columnCount) _
    (fun r hr goal wide => ?_) (by simp)
  have same := wide.trans (h.row_width (List.mem_filter.mp hr).1).symm
  exact ⟨add_eq same, (Line.width_add same).trans wide⟩

theorem driveOutRow_eq (h : t.Rectangular f.columnCount) (hrow : row < t.rows.length) :
    driveOutRow f tolerance t row = some (f.driveOutRow tolerance t row) := by
  have found : t.rows[row]? = some t.rows[row] := List.getElem?_eq_getElem hrow
  have wide := h.row_width (List.mem_of_getElem? found)
  have le := StandardForm.artificialStart_le (f := f)
  simp only [driveOutRow, StandardForm.driveOutRow, found, range_mapM_getElem? (wide.symm ▸ le),
    Option.bind_eq_bind, Option.bind_some]
  split
  · rfl
  · cases search : (t.rows[row].entries.take f.artificialStart).findIdx?
        fun a => decide (tolerance < Scalar.abs a) with
    | none => rfl
    | some column =>
      have inside := (List.findIdx?_eq_some_iff_getElem.mp search).1
      rw [List.length_take, lt_min_iff] at inside
      exact pivot_eq h hrow (inside.1.trans_le le)

theorem driveOut_eq (tolerance : α) (h : t.Rectangular f.columnCount) :
    driveOut f tolerance t = some (f.driveOut tolerance t) ∧
      (f.driveOut tolerance t).Rectangular f.columnCount := by
  have fold := foldlM_eq_some (f := driveOutRow f tolerance) (g := f.driveOutRow tolerance)
    (fun u => u.Rectangular f.columnCount ∧ u.rows.length = t.rows.length)
    (List.range t.rows.length) (fun row hrow u kept => ?_) ⟨h, rfl⟩
  · exact ⟨fold.1, fold.2.1⟩
  · obtain ⟨hu, same⟩ := kept
    exact ⟨driveOutRow_eq hu (same.symm ▸ List.mem_range.mp hrow),
      StandardForm.rectangular_driveOutRow hu row,
      (StandardForm.length_driveOutRow _ _ _ row).trans same⟩

theorem restoreGoal_eq (h : f.Rectangular) (ht : t.Rectangular f.columnCount) :
    restoreGoal f t = some (f.restoreGoal t) ∧ (f.restoreGoal t).Rectangular f.columnCount := by
  obtain ⟨fold, wide⟩ := foldlM_eq_some (f := fun goal r => clear goal r.basic r.toLine)
    (g := fun goal r => goal.clear r.basic r.toLine)
    (fun goal : Line α => goal.entries.length = f.columnCount) t.rows
    (fun r hr goal wide => have same := wide.trans (ht.row_width hr).symm
      ⟨clear_eq same (wide.symm ▸ ht.basic_lt hr), (Line.width_clear same _).trans wide⟩)
    h.tableau.goal_width
  have after : (f.restoreGoal t).Rectangular f.columnCount := ht.withGoal wide
  refine ⟨?_, after⟩
  rw [restoreGoal, show f.goal = f.tableau.goal from rfl, fold]
  exact if_pos after

theorem firstStart_rectangular (h : f.Rectangular) : f.firstStart.Rectangular f.columnCount :=
  h.tableau.withGoal (auxiliaryGoal_eq h.tableau).2

theorem firstRun_rectangular (h : f.Rectangular) :
    (f.firstRun s).tableau.Rectangular f.columnCount :=
  (firstStart_rectangular h).runFrom _ le_rfl _ _ _

theorem firstPhase_eq (h : f.Rectangular) : firstPhase f s = some (f.firstPhase s) := by
  have goal := (auxiliaryGoal_eq h.tableau).1
  have start : rectangular f.columnCount { f.tableau with goal := f.auxiliaryGoal f.tableau } =
      some f.firstStart := if_pos (firstStart_rectangular h)
  have run : runFrom s.pivotTolerance f.columnCount f.columnCount s.maxPivots 0 0 f.firstStart =
      some (f.firstRun s) := runFrom_eq _ le_rfl _ _ _ (firstStart_rectangular h)
  obtain ⟨driven, still⟩ :=
    driveOut_eq s.pivotTolerance (firstRun_rectangular (s := s) h)
  obtain ⟨restored, -⟩ := restoreGoal_eq h still
  rw [StandardForm.firstPhase_eq, firstPhase, tableau_eq h]
  simp only [goal, start, run, driven, restored, Option.bind_eq_bind, Option.bind_some]
  cases (f.firstRun s).stop with
  | limit => rfl
  | unbounded => rfl
  | optimal => exact (apply_ite some _ _ _).symm

theorem start_eq (h : f.Rectangular) : start f s = some (f.start s) := by
  rw [start, StandardForm.start]
  split
  · exact firstPhase_eq h
  · rw [tableau_eq h]
    rfl

/-- The second phase starts at a rectangular tableau. -/
theorem rectangular_of_start (h : f.Rectangular) {pivots : ℕ}
    (feasible : f.start s = .feasible t pivots) : t.Rectangular f.columnCount := by
  rw [StandardForm.start] at feasible
  split at feasible
  · rw [StandardForm.firstPhase_eq] at feasible
    split at feasible
    · cases feasible
    · cases feasible
    · split at feasible
      · cases feasible
      · cases feasible
        exact (restoreGoal_eq h (driveOut_eq _ (firstRun_rectangular h)).2).2
  · cases feasible
    exact h.tableau

/-! ## Reading the solution off -/

theorem duals_eq {p : Program α} (enough : p.constraints.length ≤ f.rows.length)
    (h : t.Rectangular f.columnCount) : duals f p t = some (f.duals p t) := by
  have count : f.slots.length = f.rows.length := StandardForm.length_slots
  refine mapM_eq_some (by simp [StandardForm.duals, count, enough]) fun k hx hy => ?_
  have inside : k < f.rows.length := by simp at hx; omega
  have inside' : k < f.slots.length := count.symm ▸ inside
  have unit : f.slots[k].unit < t.goal.entries.length :=
    h.goal_width.symm ▸ (StandardForm.unit_bounds (List.getElem_mem inside')).2
  simp only [List.getElem_zipIdx, zero_add, List.getElem?_eq_getElem inside,
    List.getElem?_eq_getElem inside', getElem?_entries unit, Option.bind_eq_bind, Option.bind_some,
    StandardForm.duals, List.getElem_zipWith, List.getElem_zip]
  rfl

theorem reducedCosts_eq {p : Program α} (h : t.Rectangular f.columnCount) :
    reducedCosts f p t = some (f.reducedCosts p t) := by
  refine mapM_eq_some_map fun b mem => ?_
  obtain ⟨basic, j⟩ := b
  have inside : j < f.variableCount := by
    have bound := List.snd_lt_of_mem_zipIdx mem
    simpa [StandardForm.basicFlags] using bound
  have le := StandardForm.variableCount_le.trans (StandardForm.artificialStart_le (f := f))
  have entry := getElem?_entries (l := t.goal) (h.goal_width.symm ▸ inside.trans_le le)
  simp only [entry, Option.bind_eq_bind, Option.bind_some]
  exact (apply_ite some _ _ _).symm

theorem solution_eq {p : Program α} (enough : p.constraints.length ≤ f.rows.length)
    (h : t.Rectangular f.columnCount) (pivots : ℕ) :
    solution f p s t pivots = some (f.solution p s t pivots) := by
  rw [solution, point_eq, duals_eq enough h, reducedCosts_eq h]
  rfl

end Strict

variable {α : Type} [Scalar α]

theorem length_constraints_le (p : Program α) :
    p.constraints.length ≤ (StandardForm.ofProgram p).rows.length := by
  simp [StandardForm.ofProgram]

/-- **No index is out of range**, whatever the numbers and the settings are. -/
theorem solveStrictly_eq {p : Program α} (h : (StandardForm.ofProgram p).Rectangular)
    (s : SolverSettings α) : solveStrictly s p = some (solve s p) := by
  simp only [solveStrictly, solve, Strict.start_eq h, Strict.point_eq, Option.bind_eq_bind,
    Option.bind_some]
  cases start : (StandardForm.ofProgram p).start s with
  | limit pivots => rfl
  | infeasible t pivots => rfl
  | feasible t pivots =>
    have ht := Strict.rectangular_of_start h start
    have run := Strict.runFrom_eq s.pivotTolerance StandardForm.artificialStart_le
      (s.maxPivots - pivots) 0 pivots ht
    have last := ht.runFrom s.pivotTolerance StandardForm.artificialStart_le
      (s.maxPivots - pivots) 0 pivots
    simp only [run, Option.bind_some, StandardForm.secondPhase, Tableau.run]
    generalize Tableau.runFrom _ _ _ _ _ t = run at last
    cases run.stop with
    | limit => rfl
    | unbounded => rfl
    | optimal => exact Strict.solution_eq (length_constraints_le p) last run.pivots

end Allotment.Simplex
