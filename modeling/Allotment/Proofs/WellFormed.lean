import Allotment.Proofs.NumberSystem
import Allotment.Program.Flaw

/-!
# Which programs have no flaw

`Program.WellFormed` says, without the order in which flaws are looked for, what a program without
one is like: it has variables, no name and no label twice, finite numbers, lower bounds that are not
negative and not above the upper ones, and one coefficient per variable everywhere.
`flaw?_eq_none_iff` is the equivalence, over every number system.
-/

namespace Allotment
set_option autoImplicit false

variable {α : Type} [Scalar α]

/-- Bounds that a variable may have. -/
structure Variable.Proper (v : Variable α) : Prop where
  finite : Scalar.isFinite v.lower = true
  nonneg : ¬v.lower < 0
  upper : ∀ u ∈ v.upper, Scalar.isFinite u = true ∧ ¬u < v.lower

/-- One finite coefficient per variable. -/
structure ProperRow (count : ℕ) (coefficients : List α) : Prop where
  length : coefficients.length = count
  finite : ∀ a ∈ coefficients, Scalar.isFinite a = true

/-- **Well-formed programs.** -/
structure Program.WellFormed (p : Program α) : Prop where
  nonempty : p.vars ≠ []
  names : p.names.Nodup
  bounds : ∀ v ∈ p.vars, v.Proper
  objective : ProperRow p.vars.length p.objective.coefficients
  labels : p.labels.Nodup
  rows : ∀ c ∈ p.constraints, ProperRow p.vars.length c.coefficients
  limits : ∀ c ∈ p.constraints, Scalar.isFinite c.limit = true

theorem Variable.boundsFlaw?_eq_none_iff (v : Variable α) : v.boundsFlaw? = none ↔ v.Proper := by
  have proper : v.Proper ↔ Scalar.isFinite v.lower = true ∧ ¬v.lower < 0 ∧
      ∀ u ∈ v.upper, Scalar.isFinite u = true ∧ ¬u < v.lower :=
    ⟨fun h => ⟨h.finite, h.nonneg, h.upper⟩, fun ⟨finite, nonneg, upper⟩ => ⟨finite, nonneg, upper⟩⟩
  rw [proper, boundsFlaw?]
  cases hu : v.upper with
  | none => split_ifs <;> simp_all
  | some u =>
    by_cases finite : Scalar.isFinite v.lower = true
    · by_cases negative : v.lower < 0
      · simp [finite, negative]
      · by_cases finite' : Scalar.isFinite u = true
        · by_cases inverted : u < v.lower <;> simp [finite, negative, finite', inverted]
        · simp [finite, negative, finite']
    · simp [finite]

/-- Where finite numbers are ordered, bounds are proper that are finite and in order. -/
theorem Variable.proper_iff [FiniteOrder α] {v : Variable α} : v.Proper ↔
    (Scalar.isFinite v.lower = true ∧ 0 ≤ v.lower) ∧
      ∀ u ∈ v.upper, Scalar.isFinite u = true ∧ v.lower ≤ u := by
  have nonneg (finite : Scalar.isFinite v.lower = true) : ¬v.lower < 0 ↔ 0 ≤ v.lower :=
    FiniteOrder.not_lt_iff_of_finite finite FiniteOrder.isFinite_zero
  have above {u : α} (finite : Scalar.isFinite u = true) (proper : Scalar.isFinite v.lower = true) :
      ¬u < v.lower ↔ v.lower ≤ u := FiniteOrder.not_lt_iff_of_finite finite proper
  constructor
  · intro h
    refine ⟨⟨h.finite, (nonneg h.finite).mp h.nonneg⟩, fun u hu => ?_⟩
    obtain ⟨finite, ordered⟩ := h.upper u hu
    exact ⟨finite, (above finite h.finite).mp ordered⟩
  · rintro ⟨⟨finite, proper⟩, upper⟩
    refine ⟨finite, (nonneg finite).mpr proper, fun u hu => ?_⟩
    obtain ⟨finite', ordered⟩ := upper u hu
    exact ⟨finite', (above finite' finite).mpr ordered⟩

theorem coefficientsFlaw?_eq_none_iff (place : Place) (names : List String) (coefficients : List α) :
    coefficientsFlaw? place names coefficients = none ↔ ProperRow names.length coefficients := by
  unfold coefficientsFlaw?
  split
  · next length => exact ⟨nofun, fun row => absurd row.length length⟩
  · next length =>
    rw [Option.map_eq_none_iff, List.find?_eq_none]
    refine ⟨fun all => ⟨not_not.mp length, fun a ha => ?_⟩, fun row pair mem => ?_⟩
    · obtain ⟨i, hi, rfl⟩ := List.getElem_of_mem ha
      have inside : i < names.length := by omega
      have pair := all (names[i], coefficients[i])
        (List.mem_iff_getElem.mpr ⟨i, by rw [List.length_zip]; omega, List.getElem_zip⟩)
      simpa using pair
    · simpa using row.finite _ (List.of_mem_zip mem).2

theorem variablesFlaw?_eq_none_iff (vs : List (Variable α)) (seen : List String) :
    variablesFlaw? seen vs = none ↔
      (∀ v ∈ vs, v.name ∉ seen) ∧ (vs.map (·.name)).Nodup ∧ ∀ v ∈ vs, v.Proper := by
  induction vs generalizing seen with
  | nil => simp [variablesFlaw?]
  | cons v vs ih =>
    unfold variablesFlaw?
    split
    · next repeated => simp [repeated]
    · next fresh =>
      have fresh' : (∀ w ∈ vs, w.name ∉ v.name :: seen) ↔
          v.name ∉ vs.map (·.name) ∧ ∀ w ∈ vs, w.name ∉ seen := by
        simp only [List.mem_cons, not_or, List.mem_map, not_exists, not_and]
        exact ⟨fun h => ⟨fun w hw => (h w hw).1, fun w hw => (h w hw).2⟩,
          fun h w hw => ⟨h.1 w hw, h.2 w hw⟩⟩
      simp only [Option.orElse_eq_orElse, Option.orElse_eq_or, Option.or_eq_none_iff]
      rw [v.boundsFlaw?_eq_none_iff, ih, fresh',
        List.forall_mem_cons, List.forall_mem_cons, List.map_cons, List.nodup_cons]
      tauto

theorem constraintsFlaw?_eq_none_iff (names : List String) (cs : List (Constraint α))
    (seen : List String) : constraintsFlaw? names seen cs = none ↔
      (∀ c ∈ cs, c.label ∉ seen) ∧ (cs.map (·.label)).Nodup ∧
        (∀ c ∈ cs, ProperRow names.length c.coefficients) ∧
        ∀ c ∈ cs, Scalar.isFinite c.limit = true := by
  induction cs generalizing seen with
  | nil => simp [constraintsFlaw?]
  | cons c cs ih =>
    unfold constraintsFlaw?
    split
    · next repeated => simp [repeated]
    · next fresh =>
      have fresh' : (∀ d ∈ cs, d.label ∉ c.label :: seen) ↔
          c.label ∉ cs.map (·.label) ∧ ∀ d ∈ cs, d.label ∉ seen := by
        simp only [List.mem_cons, not_or, List.mem_map, not_exists, not_and]
        exact ⟨fun h => ⟨fun d hd => (h d hd).1, fun d hd => (h d hd).2⟩,
          fun h d hd => ⟨h.1 d hd, h.2 d hd⟩⟩
      have finite : (if Scalar.isFinite c.limit then none
          else some (Flaw.nonFinite (.limit c.label) : Flaw α)) = none ↔
          Scalar.isFinite c.limit = true := by
        split <;> simp_all
      simp only [Option.orElse_eq_orElse, Option.orElse_eq_or, Option.or_eq_none_iff]
      rw [coefficientsFlaw?_eq_none_iff, finite, ih, fresh',
        List.forall_mem_cons, List.forall_mem_cons, List.forall_mem_cons, List.map_cons, List.nodup_cons]
      tauto

/-- **A program without a flaw is one that is well formed.** -/
theorem Program.flaw?_eq_none_iff (p : Program α) : p.flaw? = none ↔ p.WellFormed := by
  have count : p.names.length = p.vars.length := List.length_map _
  unfold flaw?
  split
  · next empty =>
    exact ⟨nofun, fun h => absurd (List.isEmpty_iff.mp empty) h.nonempty⟩
  · next nonempty =>
    simp only [Option.orElse_eq_orElse, Option.orElse_eq_or, Option.or_eq_none_iff]
    rw [variablesFlaw?_eq_none_iff, coefficientsFlaw?_eq_none_iff,
      constraintsFlaw?_eq_none_iff, count]
    constructor
    · rintro ⟨⟨-, names, bounds⟩, objective, -, labels, rows, limits⟩
      exact ⟨fun empty => nonempty (List.isEmpty_iff.mpr empty), names, bounds, objective, labels, rows, limits⟩
    · intro h
      exact ⟨⟨fun _ _ => List.not_mem_nil, h.names, h.bounds⟩, h.objective,
        fun _ _ => List.not_mem_nil, h.labels, h.rows, h.limits⟩

end Allotment
