import Allotment.Proofs.Diagnosis

/-!
# Verdicts on a constraint

What a constraint consumes at a point, and whether the slack that this leaves is within a tolerance, is
looked at in four places: in the usage of the constraints, in the list of violations, in the test of
feasibility, and in the table of prices. Over the rationals and with a tolerance that is not negative they
come to one verdict (`verdicts_agree`): a constraint is violated just when it is not binding and its slack
is on the wrong side, and both sides of an equality are (`Constraint.satisfied_eq_false_iff`).
-/

namespace Allotment
set_option autoImplicit false

/-! ## The order of violations -/

namespace Violation

/-- **Violations are sorted by insertion**, from the last one of the program to the first. -/
theorem sort_eq_insertionSort {α : Type} [Scalar α] (vs : List (Violation α)) :
    sort vs = vs.insertionSort fun v w => v.precedes w = true := by
  have insert_eq (v : Violation α) (ws : List (Violation α)) :
      v.insert ws = ws.orderedInsert (fun v w => v.precedes w = true) v := by
    induction ws with
    | nil => rfl
    | cons w rest ih => rw [insert, List.orderedInsert_cons, ih]
  rw [sort, List.insertionSort]
  exact congrArg (fun f => vs.foldr f []) (funext₂ insert_eq)

theorem precedes_iff {v w : Violation ℚ} : v.precedes w = true ↔ w.amount ≤ v.amount :=
  decide_eq_true_iff

/-- The greatest amount comes first. -/
theorem pairwise_sort (vs : List (Violation ℚ)) :
    (sort vs).Pairwise fun v w => w.amount ≤ v.amount := by
  have total : Std.Total fun v w : Violation ℚ => v.precedes w = true :=
    ⟨fun v w => by simpa only [precedes_iff] using le_total w.amount v.amount⟩
  have trans : IsTrans (Violation ℚ) fun v w => v.precedes w = true :=
    ⟨fun u v w => by simpa only [precedes_iff] using fun h h' => h'.trans h⟩
  rw [sort_eq_insertionSort]
  exact (List.pairwise_insertionSort _ vs).imp precedes_iff.mp

/-- **Violations of one amount keep their order.** -/
theorem filter_sort (vs : List (Violation ℚ)) (amount : ℚ) :
    (sort vs).filter (·.amount = amount) = vs.filter (·.amount = amount) := by
  have level : (vs.filter (·.amount = amount)).Pairwise fun v w => v.precedes w = true := by
    refine List.pairwise_of_forall_mem_list fun v hv w hw => precedes_iff.mpr ?_
    rw [of_decide_eq_true (List.mem_filter.mp hv).2, of_decide_eq_true (List.mem_filter.mp hw).2]
  have kept := (List.sublist_insertionSort level List.filter_sublist).filter (·.amount = amount)
  rw [List.filter_filter, ← sort_eq_insertionSort] at kept
  simp only [Bool.and_self] at kept
  exact (kept.eq_of_length ((perm_sort vs).filter _).length_eq.symm).symm

end Violation

/-! ## One constraint -/

section Constraint

variable {x : List ℚ} {tolerance : ℚ} (tolerant : 0 ≤ tolerance)
include tolerant

/-- A slack is on the wrong side by more than a tolerance when it is negative and not within it. -/
theorem lt_neg_iff_of_nonneg (slack : ℚ) : slack < -tolerance ↔ tolerance < |slack| ∧ slack < 0 := by
  constructor
  · intro below
    have negative : slack < 0 := below.trans_le (neg_nonpos.mpr tolerant)
    exact ⟨by rw [abs_of_neg negative]; exact lt_neg_of_lt_neg below, negative⟩
  · rintro ⟨large, negative⟩
    rw [abs_of_neg negative] at large
    exact lt_neg_of_lt_neg large

/-- **A constraint is not satisfied just when it is not binding and its slack is on the wrong side**, which
is below zero, or for an equality either side of it. -/
theorem Constraint.satisfied_eq_false_iff (c : Constraint ℚ) : c.satisfied x tolerance = false ↔
    (c.usage x tolerance).binding = false ∧
      ((c.usage x tolerance).slack < 0 ∨ c.relation = .equal) := by
  simp only [satisfied, usage, isBinding, Scalar.abs_rat]
  cases c.relation with
  | atMost => simp [lt_neg_iff_of_nonneg tolerant]
  | atLeast => simp [lt_neg_iff_of_nonneg tolerant]
  | equal => simp

end Constraint

/-! ## All constraints -/

/-- The account of a priced constraint that is not about prices. -/
def ConstraintPrice.usage {α : Type} (c : ConstraintPrice α) : Usage α where
  label := c.label
  consumed := c.consumed
  slack := c.slack
  binding := c.binding

namespace Program

variable {p : Program ℚ} {x : List ℚ} {tolerance : ℚ}

/-- **The verdicts on one constraint agree**: by its usage it is listed as violated just when it is not
binding and its slack is on the wrong side, and what is listed of it is what its usage says. -/
structure RowAgrees (p : Program ℚ) (x : List ℚ) (tolerance : ℚ) (c : Constraint ℚ) (u : Usage ℚ) :
    Prop where
  label : u.label = c.label
  listed : (∃ v ∈ p.violations x tolerance, v.label = c.label) ↔
    u.binding = false ∧ (u.slack < 0 ∨ c.relation = .equal)
  account : ∀ v ∈ p.violations x tolerance, v.label = c.label →
    v.amount = |u.slack| ∧ tolerance < v.amount ∧ v.actual = u.consumed ∧ v.required = c.limit

/-- **The verdicts on a point agree.** The constraints that are not satisfied are listed, each once, the
greatest amount first and equal amounts in the order of the program; the usage of every constraint agrees
with the list; and the point is feasible when its quantities are within their bounds and nothing is
listed. -/
structure PointAgrees (p : Program ℚ) (x : List ℚ) (tolerance : ℚ) : Prop where
  rejected : (p.violations x tolerance).Perm
    ((p.constraints.filter fun c => !c.satisfied x tolerance).map (·.violation x))
  once : ((p.violations x tolerance).map (·.label)).Nodup
  sorted : (p.violations x tolerance).Pairwise fun v w => w.amount ≤ v.amount
  stable : ∀ amount, (p.violations x tolerance).filter (·.amount = amount) =
    ((p.constraints.filter fun c => !c.satisfied x tolerance).map (·.violation x)).filter
      (·.amount = amount)
  rows : List.Forall₂ (p.RowAgrees x tolerance) p.constraints (p.usage x tolerance)
  feasible : p.feasible x tolerance = true ↔
    List.Forall₂ (fun v q => v.lower - tolerance ≤ q ∧ ∀ u ∈ v.upper, q ≤ u + tolerance) p.vars x ∧
      p.violations x tolerance = []

theorem feasible_iff_violations : p.feasible x tolerance = true ↔
    List.Forall₂ (fun v q => v.lower - tolerance ≤ q ∧ ∀ u ∈ v.upper, q ≤ u + tolerance) p.vars x ∧
      p.violations x tolerance = [] := by
  rw [feasible_iff, violations_eq_nil_iff]
  simp only [Variable.admits_iff]

namespace WellFormed

variable (h : p.WellFormed)
include h

theorem nodup_labels_violations (x : List ℚ) (tolerance : ℚ) :
    ((p.violations x tolerance).map (·.label)).Nodup := by
  have labels : (((p.constraints.filter fun c => !c.satisfied x tolerance).map (·.violation x)).map
      (·.label)).Nodup := by
    rw [List.map_map]
    exact h.labels.sublist (List.filter_sublist.map _)
  exact ((Violation.perm_sort _).map _).nodup_iff.mpr labels

/-- A label that is listed is that of a constraint that is not satisfied, and its account is listed. -/
theorem label_violations {c : Constraint ℚ} (hc : c ∈ p.constraints) {v : Violation ℚ}
    (hv : v ∈ p.violations x tolerance) (same : v.label = c.label) :
    c.satisfied x tolerance = false ∧ c.violation x = v := by
  obtain ⟨d, hd, rejected, rfl⟩ := mem_violations.mp hv
  obtain rfl := List.inj_on_of_nodup_map h.labels hd hc same
  exact ⟨rejected, rfl⟩

theorem rowAgrees (tolerant : 0 ≤ tolerance) {c : Constraint ℚ} (hc : c ∈ p.constraints) :
    p.RowAgrees x tolerance c (c.usage x tolerance) where
  label := rfl
  listed := by
    rw [← c.satisfied_eq_false_iff tolerant]
    constructor
    · rintro ⟨v, hv, same⟩
      exact (h.label_violations hc hv same).1
    · intro rejected
      exact ⟨_, mem_violations.mpr ⟨c, hc, rejected, rfl⟩, rfl⟩
  account := by
    intro v hv same
    obtain ⟨rejected, rfl⟩ := h.label_violations hc hv same
    have free := ((c.satisfied_eq_false_iff tolerant).mp rejected).1
    have amount : (c.violation x).amount = |(c.usage x tolerance).slack| := Scalar.abs_rat _
    refine ⟨amount, ?_, rfl, rfl⟩
    rw [amount, ← not_le]
    exact fun within => of_decide_eq_false free (by rwa [Scalar.abs_rat])

theorem pointAgrees (tolerant : 0 ≤ tolerance) (x : List ℚ) : p.PointAgrees x tolerance where
  rejected := Violation.perm_sort _
  once := h.nodup_labels_violations x tolerance
  sorted := Violation.pairwise_sort _
  stable := Violation.filter_sort _
  rows := by
    rw [usage, List.forall₂_map_right_iff, List.forall₂_same]
    exact fun c hc => h.rowAgrees tolerant hc
  feasible := feasible_iff_violations

end WellFormed

end Program

namespace Simplex

/-- **The table of an optimum accounts for the constraints as the optimum does.** -/
theorem usage_table {s : SolverSettings ℚ} {p : Program ℚ} {r : Pricer ℚ}
    (tolerance : r.bindingTolerance = s.bindingTolerance) (optimal : (solve s p).status = .optimal) :
    (r.table p (solve s p)).constraints.map (·.usage) = (solve s p).usage := by
  obtain ⟨-, length, objective, usage⟩ := measured_of_optimal optimal
  refine List.ext_getElem? fun k => ?_
  rw [List.getElem?_map, getElem?_table ((optimum?_eq optimal length).trans objective), Option.map_map,
    usage, Program.usage, List.getElem?_map, ← tolerance]
  rfl

/-- **All verdicts on the constraints of a program agree**, for every valid program and every tolerance that
is not negative: at every point the list of violations, the usage of the constraints and the test of
feasibility; and at every optimum that is found with this tolerance its usage and the table of prices,
whatever the method of pricing. -/
theorem verdicts_agree (p : Program ℚ) (valid : p.flaw? = none) (tolerance : ℚ) (tolerant : 0 ≤ tolerance) :
    (∀ x, p.PointAgrees x tolerance) ∧
    ∀ (s : SolverSettings ℚ) (r : Pricer ℚ), s.bindingTolerance = tolerance →
      r.bindingTolerance = tolerance → (solve s p).status = .optimal →
        (r.table p (solve s p)).constraints.map (·.usage) = (solve s p).usage :=
  ⟨(p.flaw?_eq_none_iff.mp valid).pointAgrees tolerant,
    fun _ _ own priced optimal => usage_table (priced.trans own.symm) optimal⟩

open Program in
theorem verdicts_agree_sample : (sample.flaw? = none ∧ (0 : ℚ) ≤ defaultBindingTolerance ∧
      (solve .default sample).status = .optimal) ∧
    (sample.PointAgrees [2, 5] defaultBindingTolerance ∧
      (sample.violations [2, 5] defaultBindingTolerance).map (fun v => (v.label, v.amount)) =
        [("mix", 4), ("together", 3), ("gap", 2)]) ∧
    ((Pricer.ofSettings .default .default).table sample (solve .default sample)).constraints.map (·.usage) =
      (solve .default sample).usage := by
  have tolerant : (0 : ℚ) ≤ defaultBindingTolerance := by decide +kernel
  have optimal : (solve .default sample).status = .optimal := by decide +kernel
  obtain ⟨points, optima⟩ := verdicts_agree sample flaw?_sample defaultBindingTolerance tolerant
  exact ⟨⟨flaw?_sample, tolerant, optimal⟩, ⟨points _, by decide +kernel⟩, optima _ _ rfl rfl optimal⟩

end Simplex

end Allotment
