import Allotment.Proofs.Simplex.Lift

/-!
# Programs and their standard forms

The rows of the standard form of a program are its constraints, shifted by the lower bounds and
negated where the right-hand side would be negative, and its upper bounds. So a point of the program
and its shifted quantities say the same: it is feasible when these are not negative and meet the rows
(`feasible_corner_iff`), also when the limits are moved (`meets_carried_iff`), and one point is better
than another by as much as it weighs more in the gains (`improvement_corner`).
-/

namespace Allotment.Simplex
set_option autoImplicit false

/-! ## One row -/

namespace StandardRow

theorem length_normalize {α : Type} [Scalar α] (coefficients : List α) (relation : Relation)
    (rhs : α) : (normalize coefficients relation rhs).coefficients.length = coefficients.length := by
  unfold normalize
  split <;> simp

/-- Minus one for a row that was negated, else one. -/
def scale (r : StandardRow ℚ) : ℚ := if r.negated then -1 else 1

section Normalize

variable (coefficients : List ℚ) (relation : Relation) (rhs : ℚ)

theorem rhs_normalize_nonneg : 0 ≤ (normalize coefficients relation rhs).rhs := by
  unfold normalize
  split
  · next negative => exact neg_nonneg.mpr negative.le
  · next nonneg => exact not_lt.mp nonneg

theorem weigh_normalize (z : ℕ → ℚ) : weigh (normalize coefficients relation rhs).coefficients z =
    (normalize coefficients relation rhs).scale * weigh coefficients z := by
  unfold normalize
  split
  · exact weigh_map _ _ _ (fun a => by simp [scale]) z
  · simp [scale]

theorem rhs_normalize : (normalize coefficients relation rhs).rhs =
    (normalize coefficients relation rhs).scale * rhs := by
  unfold normalize
  split <;> simp [scale]

omit coefficients relation rhs in
theorem scale_ne_zero (r : StandardRow ℚ) : r.scale ≠ 0 := by
  unfold scale
  split <;> norm_num

omit coefficients relation rhs in
theorem abs_scale (r : StandardRow ℚ) : |r.scale| = 1 := by
  unfold scale
  split <;> norm_num

/-- The two forms of a row: as it is, or negated with its relation flipped. -/
theorem normalize_cases :
    (normalize coefficients relation rhs).scale = 1 ∧
        (normalize coefficients relation rhs).relation = relation ∨
      (normalize coefficients relation rhs).scale = -1 ∧
        (normalize coefficients relation rhs).relation = relation.flip := by
  unfold normalize
  split
  · exact Or.inr ⟨rfl, rfl⟩
  · exact Or.inl ⟨rfl, rfl⟩

/-- **A row holds where the unnormalized one does**, also when its right-hand side is moved. -/
theorem normalize_holds_iff (z : ℕ → ℚ) (move : ℚ) :
    (normalize coefficients relation rhs).relation.Holds
        (weigh (normalize coefficients relation rhs).coefficients z)
        ((normalize coefficients relation rhs).rhs +
          (normalize coefficients relation rhs).scale * move) ↔
      relation.Holds (weigh coefficients z) (rhs + move) := by
  rw [weigh_normalize, rhs_normalize, ← mul_add]
  obtain ⟨scale, same⟩ | ⟨scale, flipped⟩ := normalize_cases coefficients relation rhs
  · rw [scale, same, one_mul, one_mul]
  · rw [scale, flipped, neg_one_mul, neg_one_mul, Relation.holds_flip_neg]

/-- A negated inequality is relaxed in the other direction. -/
theorem relaxationSign_normalize (inequality : relation ≠ .equal) :
    ((normalize coefficients relation rhs).relation.relaxationSign : ℚ) =
      (normalize coefficients relation rhs).scale * relation.relaxationSign := by
  obtain ⟨scale, same⟩ | ⟨scale, flipped⟩ := normalize_cases coefficients relation rhs
  · rw [scale, same, one_mul]
  · rw [scale, flipped]
    cases relation with
    | atMost => simp [Relation.flip, Relation.relaxationSign]
    | atLeast => simp [Relation.flip, Relation.relaxationSign]
    | equal => exact absurd rfl inequality

theorem relation_normalize_eq_equal :
    (normalize coefficients relation rhs).relation = .equal ↔ relation = .equal := by
  obtain ⟨-, same⟩ | ⟨-, flipped⟩ := normalize_cases coefficients relation rhs
  · rw [same]
  · rw [flipped]
    cases relation <;> simp [Relation.flip]

end Normalize

end StandardRow

namespace StandardForm

/-- The row that holds a variable to its upper bound is never negated. -/
theorem boundRow_eq (count j : ℕ) {range : ℚ} (nonneg : 0 ≤ range) : boundRow count j range =
    { coefficients := (List.range count).map fun i => if i = j then 1 else 0
      relation := .atMost, rhs := range, negated := false } := by
  rw [boundRow, StandardRow.normalize, if_neg (not_lt.mpr nonneg)]

theorem weigh_indicator {count j : ℕ} (hj : j < count) (z : ℕ → ℚ) :
    weigh ((List.range count).map fun i => if i = j then (1 : ℚ) else 0) z = z j := by
  have sum : weigh ((List.range count).map fun i => if i = j then (1 : ℚ) else 0) z =
      ∑ i ∈ Finset.range count, (if 0 + i = j then 1 else 0) * z (0 + i) := by
    rw [weigh, List.length_map, List.length_range]
    apply Finset.sum_congr rfl
    intro i hi
    simp [Finset.mem_range.mp hi]
  rw [sum, Slot.sum_indicator (Nat.zero_le _) (by omega)]

/-! ## Points -/

/-- **The point of the program** that shifted quantities stand for. -/
def corner (f : StandardForm ℚ) (z : ℕ → ℚ) : List ℚ := f.lower.mapIdx fun j bound => bound + z j

/-- The shifted quantities of a point of the program. -/
def shifted (f : StandardForm ℚ) (x : List ℚ) (j : ℕ) : ℚ := x.getD j 0 - f.lower.getD j 0

section Points

variable {f : StandardForm ℚ} {z w : ℕ → ℚ}

theorem length_corner : (f.corner z).length = f.variableCount := List.length_mapIdx

theorem getElem?_corner (j : ℕ) : (f.corner z)[j]? = (f.lower[j]?).map (· + z j) := by
  rw [corner, List.getElem?_mapIdx]

theorem corner_congr (same : ∀ j < f.variableCount, z j = w j) : f.corner z = f.corner w := by
  apply List.ext_getElem?
  intro j
  rw [getElem?_corner, getElem?_corner]
  by_cases hj : j < f.variableCount
  · rw [same j hj]
  · simp [show f.lower.length ≤ j from not_lt.mp hj]

theorem corner_shifted {x : List ℚ} (length : x.length = f.variableCount) :
    f.corner (f.shifted x) = x := by
  apply List.ext_getElem (by rw [length_corner, length])
  intro j hj hx
  have inside : j < f.lower.length := hx.trans_eq length
  simp [corner, shifted, hx, inside]

/-- What a row consumes at a point: what it consumes at the lower bounds, and what it weighs. -/
theorem dot_corner {row : List ℚ} (width : row.length = f.variableCount) :
    dot row (f.corner z) = dot row f.lower + weigh row z := by
  rw [dot_eq_weigh, dot_eq_weigh, ← weigh_add]
  apply weigh_congr
  intro j hj
  have inside : j < f.lower.length := hj.trans_eq width
  simp [corner, inside]

end Points

/-! ## The rows of a program -/

section Rows

variable {α : Type} [Scalar α] {p : Program α} {i j k : ℕ} {c : Constraint α} {v : Variable α} {u : α}

/-- The row of a constraint. -/
def rowOf (p : Program α) (c : Constraint α) : StandardRow α :=
  .normalize c.coefficients c.relation (c.limit - dot c.coefficients (ofProgram p).lower)

theorem variableCount_ofProgram : (ofProgram p).variableCount = p.vars.length := List.length_map _

theorem lower_ofProgram (j : ℕ) : (ofProgram p).lower[j]? = (p.vars[j]?).map (·.lower) :=
  List.getElem?_map

theorem rows_ofProgram : (ofProgram p).rows = p.constraints.map (rowOf p) ++
    p.vars.zipIdx.filterMap fun (v, j) =>
      v.upper.map fun upper => boundRow p.vars.length j (upper - v.lower) := rfl

theorem mem_bounds {r : StandardRow α} : (r ∈ p.vars.zipIdx.filterMap fun (v, j) =>
      v.upper.map fun upper => boundRow p.vars.length j (upper - v.lower)) ↔
    ∃ j v u, p.vars[j]? = some v ∧ v.upper = some u ∧ r = boundRow p.vars.length j (u - v.lower) := by
  simp only [List.mem_filterMap, Prod.exists, List.mem_zipIdx_iff_getElem?, Option.map_eq_some_iff]
  constructor
  · rintro ⟨v, j, hv, u, hu, rfl⟩
    exact ⟨j, v, u, hv, hu, rfl⟩
  · rintro ⟨j, v, u, hv, hu, rfl⟩
    exact ⟨v, j, hv, u, hu, rfl⟩

theorem row_constraint (hc : p.constraints[k]? = some c) :
    (ofProgram p).rows[k]? = some (rowOf p c) := by
  obtain ⟨inside, -⟩ := List.getElem?_eq_some_iff.mp hc
  rw [ofProgram, List.getElem?_append_left (by rwa [List.length_map]), List.getElem?_map, hc]
  rfl

/-- **Each row is that of a constraint, or of an upper bound.** -/
theorem row_cases {r : StandardRow α} (hr : (ofProgram p).rows[i]? = some r) :
    (∃ c, p.constraints[i]? = some c ∧ r = rowOf p c) ∨ p.constraints[i]? = none ∧
      ∃ j v u, p.vars[j]? = some v ∧ v.upper = some u ∧ r = boundRow p.vars.length j (u - v.lower) := by
  cases hc : p.constraints[i]? with
  | some c => exact Or.inl ⟨c, rfl, Option.some.inj (hr.symm.trans (row_constraint hc))⟩
  | none =>
    refine Or.inr ⟨rfl, mem_bounds.mp ?_⟩
    rw [ofProgram, List.getElem?_append_right (by simpa using hc)] at hr
    exact List.mem_of_getElem? hr

theorem exists_bound (hv : p.vars[j]? = some v) (hu : v.upper = some u) :
    ∃ i : ℕ, p.constraints[i]? = none ∧
      (ofProgram p).rows[i]? = some (boundRow p.vars.length j (u - v.lower)) := by
  obtain ⟨i, hi⟩ := List.getElem?_of_mem (mem_bounds.mpr ⟨j, v, u, hv, hu, rfl⟩)
  refine ⟨p.constraints.length + i, by simp, ?_⟩
  rw [ofProgram, List.getElem?_append_right (by simp), List.length_map, Nat.add_sub_cancel_left, hi]

/-- One coefficient per variable in the constraints makes one in every row. -/
theorem width_row (widths : ∀ c ∈ p.constraints, c.coefficients.length = p.vars.length)
    {r : StandardRow α} (hr : r ∈ (ofProgram p).rows) :
    r.coefficients.length = (ofProgram p).variableCount := by
  obtain ⟨i, hi⟩ := List.getElem?_of_mem hr
  rw [variableCount_ofProgram]
  obtain ⟨c, hc, rfl⟩ | ⟨-, j, v, u, -, -, rfl⟩ := row_cases hi
  · rw [rowOf, StandardRow.length_normalize, widths c (List.mem_of_getElem? hc)]
  · rw [boundRow, StandardRow.length_normalize, List.length_map, List.length_range]

end Rows

/-- A point within the bounds is the one that its shifted quantities stand for. -/
theorem corner_shifted_of_within {p : Program ℚ} {x : List ℚ} (within : p.Within x) :
    (ofProgram p).corner ((ofProgram p).shifted x) = x :=
  corner_shifted (variableCount_ofProgram.trans within.length_eq).symm

section WellFormed

variable {p : Program ℚ} (h : p.WellFormed) {z w : ℕ → ℚ}
include h

theorem bound_row {j : ℕ} {v : Variable ℚ} {u : ℚ} (hv : p.vars[j]? = some v) (hu : v.upper = some u) :
    boundRow p.vars.length j (u - v.lower) =
      { coefficients := (List.range p.vars.length).map fun i => if i = j then 1 else 0
        relation := .atMost, rhs := u - v.lower, negated := false } :=
  boundRow_eq _ _ (sub_nonneg.mpr (h.lower_le (List.mem_of_getElem? hv) hu))

theorem ofProgram_proper : (ofProgram p).Proper where
  rows r hr := width_row (fun c hc => h.row_length hc) hr
  rhs r hr := by
    obtain ⟨i, hi⟩ := List.getElem?_of_mem hr
    obtain ⟨c, -, rfl⟩ | ⟨-, j, v, u, -, -, rfl⟩ := row_cases hi
    · exact StandardRow.rhs_normalize_nonneg _ _ _
    · exact StandardRow.rhs_normalize_nonneg _ _ _
  gains := by
    rw [variableCount_ofProgram, ← h.objective.length]
    exact List.length_map _

theorem consumed_corner {c : Constraint ℚ} (hc : c ∈ p.constraints) :
    c.consumed ((ofProgram p).corner z) =
      dot c.coefficients (ofProgram p).lower + weigh c.coefficients z :=
  dot_corner ((h.row_length hc).trans variableCount_ofProgram.symm)

/-- **What a row leaves of its right-hand side** is what the constraint leaves of its limit. -/
theorem rhs_sub_weigh_rowOf {c : Constraint ℚ} (hc : c ∈ p.constraints) :
    (rowOf p c).rhs - weigh (rowOf p c).coefficients z =
      (rowOf p c).scale * (c.limit - c.consumed ((ofProgram p).corner z)) := by
  rw [consumed_corner h hc, rowOf, StandardRow.weigh_normalize, StandardRow.rhs_normalize]
  ring

omit h in
/-- A relation between the variables and a point, quantity by quantity. -/
theorem forall₂_corner_iff {related : Variable ℚ → ℚ → Prop} :
    List.Forall₂ related p.vars ((ofProgram p).corner z) ↔
      ∀ (j : ℕ) (v : Variable ℚ), p.vars[j]? = some v → related v (v.lower + z j) := by
  have entry : ∀ (j : ℕ) (v : Variable ℚ), p.vars[j]? = some v →
      ((ofProgram p).corner z)[j]? = some (v.lower + z j) := by
    intro j v hv
    rw [getElem?_corner, lower_ofProgram, hv]
    rfl
  rw [List.forall₂_iff_get]
  constructor
  · rintro ⟨-, all⟩ j v hv
    obtain ⟨inside, rfl⟩ := List.getElem?_eq_some_iff.mp hv
    have inside' : j < ((ofProgram p).corner z).length := by
      rwa [length_corner, variableCount_ofProgram]
    have here := all j inside inside'
    rwa [List.get_eq_getElem, List.get_eq_getElem,
      Option.some.inj ((List.getElem?_eq_getElem inside').symm.trans (entry j _ hv))] at here
  · intro all
    refine ⟨by rw [length_corner, variableCount_ofProgram], fun j inside inside' => ?_⟩
    have hv := List.getElem?_eq_getElem inside
    rw [List.get_eq_getElem, List.get_eq_getElem,
      Option.some.inj ((List.getElem?_eq_getElem inside').symm.trans (entry j _ hv))]
    exact all j _ hv

omit h in
theorem within_corner_iff : p.Within ((ofProgram p).corner z) ↔
    ∀ (j : ℕ) (v : Variable ℚ), p.vars[j]? = some v → 0 ≤ z j ∧ ∀ u ∈ v.upper, v.lower + z j ≤ u := by
  rw [Program.Within, forall₂_corner_iff]
  refine forall_congr' fun j => forall_congr' fun v => imp_congr_right fun _ => ?_
  rw [Variable.Admits, le_add_iff_nonneg_right]

omit h in
/-- Moves of the limits of the constraints, as shifts of the rows. -/
def carried (p : Program ℚ) (moves : ℕ → ℚ) (i : ℕ) : ℚ :=
  ((p.constraints[i]?).map fun c => (rowOf p c).scale * moves i).getD 0

omit h in
theorem carried_constraint {moves : ℕ → ℚ} {k : ℕ} {c : Constraint ℚ} (hc : p.constraints[k]? = some c) :
    carried p moves k = (rowOf p c).scale * moves k := by
  rw [carried, hc]
  rfl

omit h in
theorem carried_none {moves : ℕ → ℚ} {i : ℕ} (hc : p.constraints[i]? = none) : carried p moves i = 0 := by
  rw [carried, hc]
  rfl

omit h in
@[simp] theorem carried_zero : carried p 0 = 0 := by
  funext i
  cases hc : p.constraints[i]? with
  | none => exact carried_none hc
  | some c => rw [carried_constraint hc, Pi.zero_apply, mul_zero]

theorem row_holds_iff {c : Constraint ℚ} (hc : c ∈ p.constraints) (move : ℚ) :
    (rowOf p c).relation.Holds (weigh (rowOf p c).coefficients z)
        ((rowOf p c).rhs + (rowOf p c).scale * move) ↔
      ({ c with limit := c.limit + move } : Constraint ℚ).Holds ((ofProgram p).corner z) := by
  rw [rowOf, StandardRow.normalize_holds_iff, Constraint.Holds]
  have consumed := consumed_corner h (z := z) hc
  rw [Constraint.consumed] at consumed ⊢
  rw [consumed]
  cases c.relation with
  | atMost => simp only [Relation.Holds]; constructor <;> intro holds <;> linarith
  | atLeast => simp only [Relation.Holds]; constructor <;> intro holds <;> linarith
  | equal => simp only [Relation.Holds]; constructor <;> intro holds <;> linarith

/-- **What it is to meet the rows of a program with moved limits.** -/
theorem meets_carried_iff (moves : ℕ → ℚ) : (ofProgram p).Meets (carried p moves) z ↔
    (∀ (k : ℕ) (c : Constraint ℚ), p.constraints[k]? = some c →
      ({ c with limit := c.limit + moves k } : Constraint ℚ).Holds ((ofProgram p).corner z)) ∧
    ∀ (j : ℕ) (v : Variable ℚ), p.vars[j]? = some v → ∀ u ∈ v.upper, v.lower + z j ≤ u := by
  constructor
  · refine fun meets => ⟨fun k c hc => ?_, fun j v hv u hu => ?_⟩
    · have holds := meets k _ (row_constraint hc)
      rw [carried_constraint hc] at holds
      exact (row_holds_iff h (List.mem_of_getElem? hc) _).mp holds
    · obtain ⟨i, outside, hi⟩ := exists_bound hv hu
      obtain ⟨inside, -⟩ := List.getElem?_eq_some_iff.mp hv
      have holds := meets i _ hi
      rw [carried_none outside, bound_row h hv hu] at holds
      simp only [weigh_indicator inside, Relation.Holds] at holds
      linarith
  · rintro ⟨constraints, bounds⟩ i r hr
    obtain ⟨c, hc, rfl⟩ | ⟨outside, j, v, u, hv, hu, rfl⟩ := row_cases hr
    · rw [carried_constraint hc]
      exact (row_holds_iff h (List.mem_of_getElem? hc) _).mpr (constraints i c hc)
    · obtain ⟨inside, -⟩ := List.getElem?_eq_some_iff.mp hv
      rw [carried_none outside, bound_row h hv hu]
      simp only [weigh_indicator inside, Relation.Holds]
      linarith [bounds j v hv u hu]

/-- **A point is feasible when its shifted quantities are not negative and meet the rows.** -/
theorem feasible_corner_iff : p.Feasible ((ofProgram p).corner z) ↔
    (∀ j < (ofProgram p).variableCount, 0 ≤ z j) ∧ (ofProgram p).Meets 0 z := by
  have meets := meets_carried_iff h (z := z) 0
  simp only [carried_zero, Pi.zero_apply, add_zero] at meets
  rw [meets, variableCount_ofProgram]
  constructor
  · rintro ⟨within, holds⟩
    have bounds := within_corner_iff.mp within
    exact ⟨fun j hj => (bounds j _ (List.getElem?_eq_getElem hj)).1,
      fun k c hc => holds c (List.mem_of_getElem? hc), fun j v hv => (bounds j v hv).2⟩
  · rintro ⟨nonneg, holds, bounds⟩
    refine ⟨within_corner_iff.mpr fun j v hv => ⟨?_, bounds j v hv⟩, fun c hc => ?_⟩
    · obtain ⟨inside, -⟩ := List.getElem?_eq_some_iff.mp hv
      exact nonneg j inside
    · obtain ⟨k, hk⟩ := List.getElem?_of_mem hc
      exact holds k c hk

/-- **What one point is better by than another.** -/
theorem improvement_corner : p.objective.sense.improvement (p.valueAt ((ofProgram p).corner z))
      (p.valueAt ((ofProgram p).corner w)) =
    weigh (ofProgram p).gains z - weigh (ofProgram p).gains w := by
  have width : p.objective.coefficients.length = (ofProgram p).variableCount :=
    h.objective.length.trans variableCount_ofProgram.symm
  have gains : ∀ z, weigh (ofProgram p).gains z =
      p.objective.sense.sign * weigh p.objective.coefficients z :=
    fun z => weigh_map _ _ _ (fun _ => rfl) z
  rw [gains, gains, Program.valueAt, Program.valueAt, Objective.valueAt, Objective.valueAt,
    dot_corner width, dot_corner width, Sense.improvement]
  ring

end WellFormed

end StandardForm

end Allotment.Simplex
