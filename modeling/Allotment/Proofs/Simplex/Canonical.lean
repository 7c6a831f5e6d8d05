import Allotment.Proofs.Simplex.Line

/-!
# Canonical tableaus

A tableau is canonical when its basic columns form an identity in the rows and are clear in the
objective line. Then the rows can be read as what they are meant for: the value of the basic
column in terms of the others. Setting the others to zero gives the `vertex` of the tableau;
letting one of them grow gives a `ray` along which the equations keep holding.

Two tableaus are `Equivalent` when they have the same solutions, and the same objective on these.
-/

namespace Allotment.Simplex
set_option autoImplicit false

namespace Tableau

/-- The columns that some row is solved for. -/
def basis (t : Tableau ℚ) : Finset ℕ := (t.rows.map (·.basic)).toFinset

/-- The equations hold at a point. -/
def Solves (t : Tableau ℚ) (z : ℕ → ℚ) : Prop := ∀ r ∈ t.rows, r.excess z = 0

/-- A point given on the basic columns, and zero on all others. -/
def onBasis (t : Tableau ℚ) (value : Row ℚ → ℚ) (j : ℕ) : ℚ :=
  ((t.rows.find? (·.basic == j)).map value).getD 0

/-- **The vertex of a tableau**: each basic column at the right-hand side of its row. -/
def vertex (t : Tableau ℚ) : ℕ → ℚ := t.onBasis (·.rhs)

/-- The direction in which a column grows by one and the basic columns make up for it. -/
def ray (t : Tableau ℚ) (column : ℕ) : ℕ → ℚ :=
  Pi.single column 1 - t.onBasis (·.entry column)

/-- **Canonical tableaus** of a width. -/
structure Canonical (t : Tableau ℚ) (n : ℕ) : Prop where
  width : ∀ r ∈ t.rows, r.entries.length = n
  goalWidth : t.goal.entries.length = n
  basic_lt : ∀ r ∈ t.rows, r.basic < n
  unit : ∀ (i k : ℕ) (r q : Row ℚ), t.rows[i]? = some r → t.rows[k]? = some q →
    r.entry q.basic = if i = k then 1 else 0
  goal_basic : ∀ r ∈ t.rows, t.goal.entry r.basic = 0

/-- No right-hand side is negative. -/
def Feasible (t : Tableau ℚ) : Prop := ∀ r ∈ t.rows, 0 ≤ r.rhs

instance (t : Tableau ℚ) : Decidable t.Feasible := inferInstanceAs (Decidable (∀ r ∈ t.rows, 0 ≤ r.rhs))

/-- The same solutions, and the same objective on them. -/
structure Equivalent (t u : Tableau ℚ) : Prop where
  solves_iff : ∀ z, t.Solves z ↔ u.Solves z
  goal_eq : ∀ z, u.Solves z → t.goal.excess z = u.goal.excess z

theorem mem_basis {t : Tableau ℚ} {j : ℕ} : j ∈ t.basis ↔ ∃ r ∈ t.rows, r.basic = j := by
  simp [basis]

theorem basic_mem_basis {t : Tableau ℚ} {r : Row ℚ} (hr : r ∈ t.rows) : r.basic ∈ t.basis :=
  mem_basis.mpr ⟨r, hr, rfl⟩

theorem onBasis_of_not_mem {t : Tableau ℚ} {value : Row ℚ → ℚ} {j : ℕ} (hj : j ∉ t.basis) :
    t.onBasis value j = 0 := by
  have none : t.rows.find? (·.basic == j) = none := by
    rw [List.find?_eq_none]
    intro r hr e
    exact hj (mem_basis.mpr ⟨r, hr, beq_iff_eq.mp e⟩)
  rw [onBasis, none]
  rfl

theorem vertex_of_not_mem {t : Tableau ℚ} {j : ℕ} (hj : j ∉ t.basis) : t.vertex j = 0 :=
  onBasis_of_not_mem hj

namespace Canonical

variable {t u : Tableau ℚ} {n : ℕ} (h : t.Canonical n)
include h

theorem basis_subset : t.basis ⊆ Finset.range n := by
  intro j hj
  obtain ⟨r, hr, rfl⟩ := mem_basis.mp hj
  exact Finset.mem_range.mpr (h.basic_lt r hr)

theorem entry_self {r : Row ℚ} (hr : r ∈ t.rows) : r.entry r.basic = 1 := by
  obtain ⟨i, hi⟩ := List.getElem?_of_mem hr
  rw [h.unit i i r r hi hi, if_pos rfl]

/-- No two rows are solved for one column. -/
theorem index_eq {i k : ℕ} {r q : Row ℚ} (hi : t.rows[i]? = some r) (hk : t.rows[k]? = some q)
    (same : r.basic = q.basic) : i = k := by
  by_contra ne
  have one := h.unit i i r r hi hi
  have zero := h.unit i k r q hi hk
  rw [if_pos rfl] at one
  rw [if_neg ne, ← same, one] at zero
  exact one_ne_zero zero

theorem row_eq {r q : Row ℚ} (hr : r ∈ t.rows) (hq : q ∈ t.rows) (same : r.basic = q.basic) :
    r = q := by
  obtain ⟨i, hi⟩ := List.getElem?_of_mem hr
  obtain ⟨k, hk⟩ := List.getElem?_of_mem hq
  have e := h.index_eq hi hk same
  subst e
  exact Option.some.inj (hi.symm.trans hk)

theorem entry_basic {r q : Row ℚ} (hr : r ∈ t.rows) (hq : q ∈ t.rows) (ne : r.basic ≠ q.basic) :
    r.entry q.basic = 0 := by
  obtain ⟨i, hi⟩ := List.getElem?_of_mem hr
  obtain ⟨k, hk⟩ := List.getElem?_of_mem hq
  have differ : i ≠ k := by
    rintro rfl
    exact ne (congrArg Row.basic (Option.some.inj (hi.symm.trans hk)))
  rw [h.unit i k r q hi hk, if_neg differ]

theorem goal_of_mem {j : ℕ} (hj : j ∈ t.basis) : t.goal.entry j = 0 := by
  obtain ⟨r, hr, rfl⟩ := mem_basis.mp hj
  exact h.goal_basic r hr

theorem onBasis_basic (value : Row ℚ → ℚ) {r : Row ℚ} (hr : r ∈ t.rows) :
    t.onBasis value r.basic = value r := by
  have found : t.rows.find? (·.basic == r.basic) = some r := by
    obtain ⟨q, hq⟩ : ∃ q, t.rows.find? (·.basic == r.basic) = some q := by
      rw [← Option.isSome_iff_exists, List.find?_isSome]
      exact ⟨r, hr, beq_self_eq_true _⟩
    have same : q.basic = r.basic := by simpa using List.find?_some hq
    rw [hq, h.row_eq (List.mem_of_find?_eq_some hq) hr same]
  rw [onBasis, found]
  rfl

theorem vertex_basic {r : Row ℚ} (hr : r ∈ t.rows) : t.vertex r.basic = r.rhs :=
  h.onBasis_basic _ hr

/-! A row weighs only its basic column at a point that is zero off the basis. -/

theorem lhs_of_off_basis {z : ℕ → ℚ} (hz : ∀ j, j ∉ t.basis → z j = 0) {r : Row ℚ}
    (hr : r ∈ t.rows) : r.lhs z = z r.basic := by
  rw [Line.lhs_eq_sum (h.width r hr),
    Finset.sum_eq_single_of_mem _ (Finset.mem_range.mpr (h.basic_lt r hr))]
  · rw [h.entry_self hr, one_mul]
  · intro j _ ne
    by_cases hj : j ∈ t.basis
    · obtain ⟨q, hq, rfl⟩ := mem_basis.mp hj
      rw [h.entry_basic hr hq ne.symm, zero_mul]
    · rw [hz j hj, mul_zero]

theorem goal_lhs_of_off_basis {z : ℕ → ℚ} (hz : ∀ j, j ∉ t.basis → z j = 0) :
    t.goal.lhs z = 0 := by
  rw [Line.lhs_eq_sum h.goalWidth]
  apply Finset.sum_eq_zero
  intro j _
  by_cases hj : j ∈ t.basis
  · rw [h.goal_of_mem hj, zero_mul]
  · rw [hz j hj, mul_zero]

theorem solves_vertex : t.Solves t.vertex := by
  intro r hr
  have off : ∀ j, j ∉ t.basis → t.vertex j = 0 := fun j => vertex_of_not_mem
  rw [Line.excess, h.lhs_of_off_basis off hr, h.vertex_basic hr, sub_self]

theorem goal_excess_vertex : t.goal.excess t.vertex = -t.goal.rhs := by
  rw [Line.excess, h.goal_lhs_of_off_basis fun j => vertex_of_not_mem]
  ring

/-- The vertex is the one solution that is zero off the basis. -/
theorem eq_vertex {z : ℕ → ℚ} (solves : t.Solves z) (off : ∀ j, j ∉ t.basis → z j = 0) :
    z = t.vertex := by
  funext j
  by_cases hj : j ∈ t.basis
  · obtain ⟨r, hr, rfl⟩ := mem_basis.mp hj
    have zero := solves r hr
    rw [Line.excess, h.lhs_of_off_basis off hr] at zero
    rw [h.vertex_basic hr, sub_eq_zero.mp zero]
  · rw [off j hj, vertex_of_not_mem hj]

theorem vertex_nonneg (feasible : t.Feasible) (j : ℕ) : 0 ≤ t.vertex j := by
  by_cases hj : j ∈ t.basis
  · obtain ⟨r, hr, rfl⟩ := mem_basis.mp hj
    rw [h.vertex_basic hr]
    exact feasible r hr
  · rw [vertex_of_not_mem hj]

theorem lhs_ray (column : ℕ) {r : Row ℚ} (hr : r ∈ t.rows) : r.lhs (t.ray column) = 0 := by
  have off : ∀ j, j ∉ t.basis → t.onBasis (·.entry column) j = 0 := fun j => onBasis_of_not_mem
  rw [Line.lhs, ray, weigh_sub]
  change r.lhs _ - r.lhs _ = 0
  rw [Line.lhs_single, h.lhs_of_off_basis off hr, h.onBasis_basic _ hr, sub_self]

theorem goal_lhs_ray (column : ℕ) : t.goal.lhs (t.ray column) = t.goal.entry column := by
  have off : ∀ j, j ∉ t.basis → t.onBasis (·.entry column) j = 0 := fun j => onBasis_of_not_mem
  rw [Line.lhs, ray, weigh_sub]
  change t.goal.lhs _ - t.goal.lhs _ = _
  rw [Line.lhs_single, h.goal_lhs_of_off_basis off, sub_zero]

theorem ray_basic {column : ℕ} (free : column ∉ t.basis) {r : Row ℚ} (hr : r ∈ t.rows) :
    t.ray column r.basic = -r.entry column := by
  have ne : r.basic ≠ column := fun e => free (e ▸ basic_mem_basis hr)
  rw [ray, Pi.sub_apply, Pi.single_eq_of_ne ne, h.onBasis_basic _ hr, zero_sub]

end Canonical

theorem ray_self {t : Tableau ℚ} {column : ℕ} (free : column ∉ t.basis) :
    t.ray column column = 1 := by
  rw [ray, Pi.sub_apply, Pi.single_eq_same, onBasis_of_not_mem free, sub_zero]

theorem ray_of_not_mem {t : Tableau ℚ} {column j : ℕ} (hj : j ∉ t.basis) (ne : j ≠ column) :
    t.ray column j = 0 := by
  rw [ray, Pi.sub_apply, Pi.single_eq_of_ne ne, onBasis_of_not_mem hj, sub_zero]

/-- The equations keep holding along a direction that they all weigh as zero. -/
theorem Solves.add {t : Tableau ℚ} {z w : ℕ → ℚ} (solves : t.Solves z)
    (null : ∀ r ∈ t.rows, r.lhs w = 0) : t.Solves (z + w) := by
  intro r hr
  rw [Line.excess_add_point, solves r hr, null r hr, add_zero]

namespace Canonical

variable {t : Tableau ℚ} {n : ℕ} (h : t.Canonical n)
include h

/-- Where no column both gains and is used, the objective is at most that of the vertex. -/
theorem goal_excess_le {z : ℕ → ℚ} (loses : ∀ j < n, t.goal.entry j * z j ≤ 0) :
    t.goal.excess z ≤ -t.goal.rhs := by
  have lhs : t.goal.lhs z ≤ 0 := by
    rw [Line.lhs_eq_sum h.goalWidth]
    exact Finset.sum_nonpos fun j hj => loses j (Finset.mem_range.mp hj)
  unfold Line.excess
  linarith

/-! ## Along a ray -/

theorem solves_along (c : ℚ) (column : ℕ) : t.Solves (t.vertex + c • t.ray column) :=
  h.solves_vertex.add fun r hr => by rw [Line.lhs_smul, h.lhs_ray column hr, mul_zero]

theorem goal_along (c : ℚ) (column : ℕ) : t.goal.excess (t.vertex + c • t.ray column) =
    -t.goal.rhs + c * t.goal.entry column := by
  rw [Line.excess_add_point, h.goal_excess_vertex, Line.lhs_smul, h.goal_lhs_ray]

/-- A ray that no row limits stays among the points without negative quantities. -/
theorem nonneg_along (feasible : t.Feasible) {column : ℕ} (free : column ∉ t.basis)
    (unlimited : ∀ r ∈ t.rows, r.entry column ≤ 0) {c : ℚ} (hc : 0 ≤ c) (j : ℕ) :
    0 ≤ (t.vertex + c • t.ray column) j := by
  have start := h.vertex_nonneg feasible j
  have grows : 0 ≤ t.ray column j := by
    by_cases basic : j ∈ t.basis
    · obtain ⟨r, hr, rfl⟩ := mem_basis.mp basic
      rw [h.ray_basic free hr]
      linarith [unlimited r hr]
    · by_cases same : j = column
      · rw [same, ray_self free]
        exact zero_le_one
      · rw [ray_of_not_mem basic same]
  rw [Pi.add_apply, Pi.smul_apply, smul_eq_mul]
  exact add_nonneg start (mul_nonneg hc grows)

end Canonical

namespace Equivalent

variable {t u v : Tableau ℚ}

theorem refl (t : Tableau ℚ) : t.Equivalent t := ⟨fun _ => Iff.rfl, fun _ _ => rfl⟩

theorem trans (h : t.Equivalent u) (k : u.Equivalent v) : t.Equivalent v where
  solves_iff z := (h.solves_iff z).trans (k.solves_iff z)
  goal_eq z hz := (h.goal_eq z ((k.solves_iff z).mpr hz)).trans (k.goal_eq z hz)

theorem symm (h : t.Equivalent u) : u.Equivalent t where
  solves_iff z := (h.solves_iff z).symm
  goal_eq z hz := (h.goal_eq z ((h.solves_iff z).mp hz)).symm

/-- Equivalent tableaus price a direction along the equations alike. -/
theorem goal_lhs_eq {n : ℕ} (h : t.Equivalent u) (canonical : t.Canonical n) {w : ℕ → ℚ}
    (null : ∀ r ∈ t.rows, r.lhs w = 0) : t.goal.lhs w = u.goal.lhs w := by
  have here := canonical.solves_vertex
  have there := h.goal_eq _ ((h.solves_iff _).mp here)
  have moved := h.goal_eq _ ((h.solves_iff _).mp (here.add null))
  rw [Line.excess_add_point, Line.excess_add_point, there] at moved
  exact add_left_cancel moved

end Equivalent

end Tableau

end Allotment.Simplex
