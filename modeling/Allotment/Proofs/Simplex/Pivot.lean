import Allotment.Proofs.Simplex.Canonical

/-!
# What a pivot keeps

A pivot on an entry that is not zero keeps a tableau canonical, keeps its solutions and keeps the
objective on them; the basis exchanges one column for another. When the row has the least ratio of
right-hand side to entry among the rows that limit the column, no right-hand side becomes negative.
`mem_pivot` says once what rows a pivot leaves behind; all else is derived from it.
-/

namespace Allotment.Simplex
set_option autoImplicit false

namespace Row

/-- A row solved for a column in which it has an entry. -/
def solvedFor (r : Row ℚ) (column : ℕ) : Row ℚ :=
  { r.toLine.divide (r.entry column) with basic := column }

/-- A row with a column cleared by another row solved for it. -/
def clearedBy (o : Row ℚ) (column : ℕ) (r : Row ℚ) : Row ℚ :=
  { o.toLine.clear column (r.toLine.divide (r.entry column)) with basic := o.basic }

@[simp] theorem basic_solvedFor (r : Row ℚ) (column : ℕ) : (r.solvedFor column).basic = column := rfl

@[simp] theorem basic_clearedBy (o : Row ℚ) (column : ℕ) (r : Row ℚ) :
    (o.clearedBy column r).basic = o.basic := rfl

theorem width_solvedFor (r : Row ℚ) (column : ℕ) :
    (r.solvedFor column).entries.length = r.entries.length := Line.width_divide _ _

theorem entry_solvedFor (r : Row ℚ) (column j : ℕ) :
    (r.solvedFor column).entry j = r.entry j / r.entry column := Line.entry_divide _ _ _

theorem rhs_solvedFor (r : Row ℚ) (column : ℕ) :
    (r.solvedFor column).rhs = r.rhs / r.entry column := rfl

theorem excess_solvedFor (r : Row ℚ) (column : ℕ) (z : ℕ → ℚ) :
    (r.solvedFor column).excess z = r.excess z / r.entry column := Line.excess_divide _ _ _

theorem rhs_clearedBy (o r : Row ℚ) (column : ℕ) :
    (o.clearedBy column r).rhs = o.rhs - o.entry column * (r.rhs / r.entry column) :=
  Line.rhs_clear _

section SameWidth

variable {o r : Row ℚ} (same : o.entries.length = r.entries.length) (column : ℕ)
include same

theorem width_clearedBy : (o.clearedBy column r).entries.length = o.entries.length :=
  Line.width_clear (same.trans (Line.width_divide _ _).symm) _

theorem entry_clearedBy (j : ℕ) :
    (o.clearedBy column r).entry j = o.entry j - o.entry column * (r.entry j / r.entry column) := by
  rw [← Line.entry_divide]
  exact Line.entry_clear (same.trans (Line.width_divide _ _).symm) _ _

theorem excess_clearedBy (z : ℕ → ℚ) : (o.clearedBy column r).excess z =
    o.excess z - o.entry column * (r.excess z / r.entry column) := by
  rw [← Line.excess_divide]
  exact Line.excess_clear (same.trans (Line.width_divide _ _).symm) _ _

end SameWidth

end Row

namespace Tableau

variable {t : Tableau ℚ} {n row column : ℕ} {r : Row ℚ}

theorem rows_pivot (hr : t.rows[row]? = some r) (i : ℕ) : (t.pivot row column).rows[i]? =
    (t.rows[i]?).map fun o => if i = row then r.solvedFor column else o.clearedBy column r := by
  simp only [pivot, hr, List.getElem?_mapIdx]
  rfl

theorem goal_pivot (hr : t.rows[row]? = some r) :
    (t.pivot row column).goal = t.goal.clear column (r.toLine.divide (r.entry column)) := by
  simp only [pivot, hr]

theorem length_pivot {α : Type} [Scalar α] (t : Tableau α) (row column : ℕ) :
    (t.pivot row column).rows.length = t.rows.length := by
  rw [pivot]
  split
  · rfl
  · simp

theorem row_pivot_self (hr : t.rows[row]? = some r) :
    (t.pivot row column).rows[row]? = some (r.solvedFor column) := by
  rw [rows_pivot hr, hr, Option.map_some, if_pos rfl]

theorem row_pivot_of_ne (hr : t.rows[row]? = some r) {i : ℕ} (ne : i ≠ row) {o : Row ℚ}
    (ho : t.rows[i]? = some o) : (t.pivot row column).rows[i]? = some (o.clearedBy column r) := by
  rw [rows_pivot hr, ho, Option.map_some, if_neg ne]

/-- **The rows after a pivot**: the one that was solved for the column, and the others with the
column cleared. -/
theorem mem_pivot (hr : t.rows[row]? = some r) {q : Row ℚ} : q ∈ (t.pivot row column).rows ↔
    q = r.solvedFor column ∨
      ∃ i o, i ≠ row ∧ t.rows[i]? = some o ∧ q = o.clearedBy column r := by
  constructor
  · intro hq
    obtain ⟨i, hi⟩ := List.getElem?_of_mem hq
    rw [rows_pivot hr, Option.map_eq_some_iff] at hi
    obtain ⟨o, ho, rfl⟩ := hi
    by_cases same : i = row
    · exact Or.inl (if_pos same)
    · exact Or.inr ⟨i, o, same, ho, if_neg same⟩
  · rintro (rfl | ⟨i, o, ne, ho, rfl⟩)
    · exact List.mem_of_getElem? (row_pivot_self hr)
    · exact List.mem_of_getElem? (row_pivot_of_ne hr ne ho)

/-- A pivot on a row without a right-hand side moves none, whatever the sign of its entry. -/
theorem rhs_pivot_of_eq_zero (hr : t.rows[row]? = some r) (zero : r.rhs = 0) {q : Row ℚ}
    (hq : q ∈ (t.pivot row column).rows) :
    q.rhs = 0 ∨ ∃ o ∈ t.rows, q.basic = o.basic ∧ q.rhs = o.rhs := by
  obtain rfl | ⟨i, o, -, ho, rfl⟩ := (mem_pivot hr).mp hq
  · exact Or.inl (by rw [Row.rhs_solvedFor, zero, zero_div])
  · refine Or.inr ⟨o, List.mem_of_getElem? ho, rfl, ?_⟩
    rw [Row.rhs_clearedBy, zero]
    ring

namespace Canonical

variable (h : t.Canonical n) (hr : t.rows[row]? = some r)
include h hr

theorem entry_goal_pivot (j : ℕ) : (t.pivot row column).goal.entry j =
    t.goal.entry j - t.goal.entry column * (r.entry j / r.entry column) := by
  have same : t.goal.entries.length = (r.toLine.divide (r.entry column)).entries.length := by
    rw [Line.width_divide, h.goalWidth, h.width r (List.mem_of_getElem? hr)]
  rw [goal_pivot hr, Line.entry_clear same, Line.entry_divide]

omit h in
theorem rhs_goal_pivot : (t.pivot row column).goal.rhs =
    t.goal.rhs - t.goal.entry column * (r.rhs / r.entry column) := by
  rw [goal_pivot hr]
  exact Line.rhs_clear _

theorem excess_goal_pivot (z : ℕ → ℚ) : (t.pivot row column).goal.excess z =
    t.goal.excess z - t.goal.entry column * (r.excess z / r.entry column) := by
  have same : t.goal.entries.length = (r.toLine.divide (r.entry column)).entries.length := by
    rw [Line.width_divide, h.goalWidth, h.width r (List.mem_of_getElem? hr)]
  rw [goal_pivot hr, Line.excess_clear same, Line.excess_divide]

omit hr in
theorem same_width {o q : Row ℚ} (ho : o ∈ t.rows) (hq : q ∈ t.rows) :
    o.entries.length = q.entries.length := (h.width o ho).trans (h.width q hq).symm

variable (nonzero : r.entry column ≠ 0)
include nonzero

/-- The entries after a pivot at the columns that are basic then. -/
theorem unit_pivot (i k : ℕ) (o q : Row ℚ) (hi : (t.pivot row column).rows[i]? = some o)
    (hk : (t.pivot row column).rows[k]? = some q) : o.entry q.basic = if i = k then 1 else 0 := by
  have mem := List.mem_of_getElem? hr
  rw [rows_pivot hr, Option.map_eq_some_iff] at hi hk
  obtain ⟨o', ho, rfl⟩ := hi
  obtain ⟨q', hq, rfl⟩ := hk
  have same := h.same_width (List.mem_of_getElem? ho) mem
  by_cases pi : i = row <;> by_cases pk : k = row
  · rw [if_pos pi, if_pos pk, Row.entry_solvedFor, Row.basic_solvedFor, div_self nonzero,
      if_pos (pi.trans pk.symm)]
  · have zero := h.unit row k r q' hr hq
    rw [if_neg (Ne.symm pk)] at zero
    rw [if_pos pi, if_neg pk, Row.entry_solvedFor, Row.basic_clearedBy, zero, zero_div,
      if_neg fun e : i = k => pk (e ▸ pi)]
  · rw [if_neg pi, if_pos pk, Row.entry_clearedBy same, Row.basic_solvedFor, div_self nonzero,
      if_neg fun e : i = k => pi (e.trans pk)]
    ring
  · have zero := h.unit row k r q' hr hq
    rw [if_neg (Ne.symm pk)] at zero
    rw [if_neg pi, if_neg pk, Row.entry_clearedBy same, Row.basic_clearedBy, zero,
      h.unit i k o' q' ho hq]
    ring

/-- **A pivot keeps a tableau canonical.** -/
theorem pivot (inside : column < n) : (t.pivot row column).Canonical n where
  width q hq := by
    have mem := List.mem_of_getElem? hr
    obtain rfl | ⟨i, o, -, ho, rfl⟩ := (mem_pivot hr).mp hq
    · rw [Row.width_solvedFor, h.width r mem]
    · have mem' := List.mem_of_getElem? ho
      rw [Row.width_clearedBy (h.same_width mem' mem), h.width o mem']
  goalWidth := by
    have mem := List.mem_of_getElem? hr
    have same : t.goal.entries.length = (r.toLine.divide (r.entry column)).entries.length := by
      rw [Line.width_divide, h.goalWidth, h.width r mem]
    rw [goal_pivot hr, Line.width_clear same, h.goalWidth]
  basic_lt q hq := by
    obtain rfl | ⟨i, o, -, ho, rfl⟩ := (mem_pivot hr).mp hq
    · exact inside
    · exact h.basic_lt o (List.mem_of_getElem? ho)
  unit := h.unit_pivot hr nonzero
  goal_basic q hq := by
    rw [h.entry_goal_pivot hr]
    obtain rfl | ⟨i, o, ne, ho, rfl⟩ := (mem_pivot hr).mp hq
    · rw [Row.basic_solvedFor, div_self nonzero]
      ring
    · have zero := h.unit row i r o hr ho
      rw [if_neg (Ne.symm ne)] at zero
      rw [Row.basic_clearedBy, zero, h.goal_basic o (List.mem_of_getElem? ho)]
      ring

/-- **A pivot keeps the solutions** of the equations. -/
theorem solves_pivot_iff (z : ℕ → ℚ) : (t.pivot row column).Solves z ↔ t.Solves z := by
  have mem := List.mem_of_getElem? hr
  constructor
  · intro solves
    have here : r.excess z = 0 := by
      have zero := solves _ ((mem_pivot hr).mpr (Or.inl rfl))
      rw [Row.excess_solvedFor] at zero
      exact (div_eq_zero_iff.mp zero).resolve_right nonzero
    intro o ho
    obtain ⟨i, hi⟩ := List.getElem?_of_mem ho
    by_cases same : i = row
    · rw [same, hr] at hi
      rw [← Option.some.inj hi, here]
    · have zero := solves _ ((mem_pivot hr).mpr (Or.inr ⟨i, o, same, hi, rfl⟩))
      rwa [Row.excess_clearedBy (h.same_width ho mem), here, zero_div, mul_zero, sub_zero] at zero
  · intro solves q hq
    have here := solves r mem
    obtain rfl | ⟨i, o, -, ho, rfl⟩ := (mem_pivot hr).mp hq
    · rw [Row.excess_solvedFor, here, zero_div]
    · have mem' := List.mem_of_getElem? ho
      rw [Row.excess_clearedBy (h.same_width mem' mem), solves o mem', here]
      ring

theorem pivot_equivalent : (t.pivot row column).Equivalent t where
  solves_iff := h.solves_pivot_iff hr nonzero
  goal_eq z solves := by
    rw [h.excess_goal_pivot hr, solves r (List.mem_of_getElem? hr)]
    ring

omit nonzero in
/-- The pivot column enters the basis and the basic column of the row leaves it. -/
theorem mem_basis_pivot {j : ℕ} : j ∈ (t.pivot row column).basis ↔
    j = column ∨ j ∈ t.basis ∧ j ≠ r.basic := by
  rw [mem_basis]
  constructor
  · rintro ⟨q, hq, rfl⟩
    obtain rfl | ⟨i, o, ne, ho, rfl⟩ := (mem_pivot hr).mp hq
    · exact Or.inl rfl
    · have mem : o ∈ t.rows := List.mem_of_getElem? ho
      rw [Row.basic_clearedBy]
      exact Or.inr ⟨basic_mem_basis mem, fun e => ne (h.index_eq ho hr e)⟩
  · rintro (rfl | ⟨hj, ne⟩)
    · exact ⟨_, (mem_pivot hr).mpr (Or.inl rfl), rfl⟩
    · obtain ⟨o, ho, rfl⟩ := mem_basis.mp hj
      obtain ⟨i, hi⟩ := List.getElem?_of_mem ho
      have away : i ≠ row := by
        rintro rfl
        exact ne (congrArg Row.basic (Option.some.inj (hi.symm.trans hr)))
      exact ⟨_, (mem_pivot hr).mpr (Or.inr ⟨i, o, away, hi, rfl⟩), rfl⟩

end Canonical

/-- **The least ratio keeps the right-hand sides from becoming negative.** -/
theorem Feasible.pivot (feasible : t.Feasible) (hr : t.rows[row]? = some r)
    (positive : 0 < r.entry column) (least : ∀ o ∈ t.rows, 0 < o.entry column →
      r.rhs / r.entry column ≤ o.rhs / o.entry column) : (t.pivot row column).Feasible := by
  have ratio : 0 ≤ r.rhs / r.entry column := div_nonneg (feasible r (List.mem_of_getElem? hr)) positive.le
  intro q hq
  obtain rfl | ⟨i, o, -, ho, rfl⟩ := (mem_pivot hr).mp hq
  · exact ratio
  · have mem := List.mem_of_getElem? ho
    rw [Row.rhs_clearedBy]
    by_cases limits : 0 < o.entry column
    · have bound := least o mem limits
      rw [le_div_iff₀ limits] at bound
      linarith
    · have away : o.entry column * (r.rhs / r.entry column) ≤ 0 :=
        mul_nonpos_of_nonpos_of_nonneg (not_lt.mp limits) ratio
      linarith [feasible o mem]

/-- A pivot on a row without a right-hand side leaves the vertex where it is. -/
theorem Canonical.vertex_pivot (h : t.Canonical n) (hr : t.rows[row]? = some r)
    (nonzero : r.entry column ≠ 0) (inside : column < n) (degenerate : r.rhs = 0) :
    (t.pivot row column).vertex = t.vertex := by
  refine ((h.pivot hr nonzero inside).eq_vertex ?_ ?_).symm
  · exact (h.solves_pivot_iff hr nonzero _).mpr h.solves_vertex
  · intro j hj
    by_cases out : j ∈ t.basis
    · have leaves : j = r.basic := by
        by_contra ne
        exact hj ((h.mem_basis_pivot hr).mpr (Or.inr ⟨out, ne⟩))
      rw [leaves, h.vertex_basic (List.mem_of_getElem? hr), degenerate]
    · exact vertex_of_not_mem out

end Tableau

end Allotment.Simplex
