import Allotment.Proofs.Bounds
import Allotment.Proofs.Simplex.Congruent

/-!
# Constraints written the other way round

To hold what a row consumes to at most a limit is to hold its negative to at least the negated limit.
A row is normalized to a right-hand side that is not negative before anything else is done with it, and
which of the two was written is kept in a mark that nothing but the dual values looks at
(`start_unmarked`). So a constraint may be restated, unless its row starts at zero, and the program is
solved by the same pivots (`solve_restated`): the mark and the relation turn the dual value around
twice for an inequality, and the mark alone turns it around for an equality.
-/

namespace Allotment
set_option autoImplicit false

/-! ## Restating a constraint -/

/-- The constraint with both sides negated, and its relation turned around. -/
def Constraint.negated {α : Type} [Scalar α] (c : Constraint α) : Constraint α :=
  { c with coefficients := c.coefficients.map (-·), relation := c.relation.flip, limit := -c.limit }

/-- **The program with one constraint written the other way round.** -/
def Program.restated {α : Type} [Scalar α] (p : Program α) (k : ℕ) : Program α :=
  { p with constraints := p.constraints.modify k Constraint.negated }

/-- What becomes of a slack or a dual value when a constraint is restated: an equality has no side that
it would name, so its sign turns around. -/
def Relation.restate (relation : Relation) (a : ℚ) : ℚ := if relation = .equal then -a else a

/-- The usage of a constraint that is restated. -/
def Usage.restated (relation : Relation) (u : Usage ℚ) : Usage ℚ :=
  { u with consumed := -u.consumed, slack := relation.restate u.slack }

theorem Relation.abs_restate (relation : Relation) (a : ℚ) : |relation.restate a| = |a| := by
  unfold restate
  split
  · exact abs_neg a
  · rfl

theorem dot_map_neg (row point : List ℚ) : dot (row.map (-·)) point = -dot row point := by
  rw [dot_eq_weigh, dot_eq_weigh, weigh_map row _ (-1) fun a => (neg_one_mul a).symm, neg_one_mul]

namespace Constraint

variable (c : Constraint ℚ) (x : List ℚ)

theorem consumed_negated : c.negated.consumed x = -c.consumed x := dot_map_neg _ _

theorem slack_negated : c.negated.slack (c.negated.consumed x) =
    c.relation.restate (c.slack (c.consumed x)) := by
  rw [consumed_negated, negated, slack, slack]
  cases c.relation <;> simp only [Relation.flip, Relation.restate, reduceCtorEq, if_false, if_true] <;>
    ring

/-- **A restated constraint is used as much**, counted from the other side. -/
theorem usage_negated (tolerance : ℚ) :
    c.negated.usage x tolerance = (c.usage x tolerance).restated c.relation := by
  have binding : isBinding (c.relation.restate (c.slack (c.consumed x))) tolerance =
      isBinding (c.slack (c.consumed x)) tolerance := by
    rw [isBinding, isBinding, Scalar.abs_rat, Scalar.abs_rat, Relation.abs_restate]
  rw [usage, slack_negated, binding, consumed_negated]
  rfl

end Constraint

namespace Program

theorem getElem?_restated {α : Type} [Scalar α] (p : Program α) (k i : ℕ) :
    (p.restated k).constraints[i]? =
      (p.constraints[i]?).map fun c => if k = i then c.negated else c := by
  rw [restated, List.getElem?_modify]
  split <;> simp_all

/-- Restating keeps a program well formed. -/
theorem WellFormed.restated {p : Program ℚ} (h : p.WellFormed) (k : ℕ) : (p.restated k).WellFormed where
  nonempty := h.nonempty
  names := h.names
  bounds := h.bounds
  objective := h.objective
  labels := by
    have labels : (p.restated k).labels = p.labels := by
      unfold Program.labels
      apply List.ext_getElem?
      intro i
      rw [List.getElem?_map, List.getElem?_map, getElem?_restated, Option.map_map]
      congr 1
      funext c
      rw [Function.comp_apply]
      split <;> rfl
    exact labels ▸ h.labels
  rows c hc := by
    obtain ⟨i, hi⟩ := List.getElem?_of_mem hc
    rw [getElem?_restated, Option.map_eq_some_iff] at hi
    obtain ⟨d, hd, rfl⟩ := hi
    have row := h.rows d (List.mem_of_getElem? hd)
    split
    · exact ⟨(List.length_map _).trans row.length, fun _ _ => rfl⟩
    · exact row
  limits _ _ := rfl

end Program

namespace Simplex

open StandardForm

/-! ## The restated row -/

namespace StandardRow

variable (coefficients : List ℚ) (relation : Relation) {rhs : ℚ}

theorem flip_flip (relation : Relation) : relation.flip.flip = relation := by cases relation <;> rfl

theorem map_neg_neg (row : List ℚ) : (row.map (-·)).map (-·) = row := by
  rw [List.map_map]
  simp

/-- **A row and its negation are normalized to the same row**, marked in one of them. -/
theorem normalize_neg (nonzero : rhs ≠ 0) :
    (normalize (coefficients.map (-·)) relation.flip (-rhs)).unmarked =
        (normalize coefficients relation rhs).unmarked ∧
      (normalize (coefficients.map (-·)) relation.flip (-rhs)).scale =
        -(normalize coefficients relation rhs).scale := by
  obtain negative | positive := lt_or_gt_of_ne nonzero
  · rw [normalize, normalize, if_pos negative, if_neg (by linarith)]
    exact ⟨rfl, by simp [scale]⟩
  · rw [normalize, normalize, if_neg positive.not_gt, if_pos (neg_neg_of_pos positive), map_neg_neg,
      flip_flip, neg_neg]
    exact ⟨rfl, by simp [scale]⟩

end StandardRow

namespace StandardForm

section Program

variable {p : Program ℚ} {k : ℕ} {c : Constraint ℚ} (hc : p.constraints[k]? = some c)
  (starts : c.limit ≠ dot c.coefficients p.lowerBounds)

theorem rhs_negated (c : Constraint ℚ) (lower : List ℚ) :
    c.negated.limit - dot c.negated.coefficients lower = -(c.limit - dot c.coefficients lower) := by
  rw [Constraint.negated]
  simp only [dot_map_neg]
  ring

include starts in
theorem rowOf_negated : (rowOf p c.negated).unmarked = (rowOf p c).unmarked ∧
    (rowOf p c.negated).scale = -(rowOf p c).scale := by
  have nonzero : c.limit - dot c.coefficients (ofProgram p).lower ≠ 0 := sub_ne_zero.mpr starts
  rw [rowOf, rhs_negated]
  exact StandardRow.normalize_neg _ _ nonzero

include starts in
/-- The dual value of the constraint itself: the mark turns around, and so does the relation of an
inequality. -/
theorem dual_negated (gain : ℚ) :
    p.objective.sense.sign * ((rowOf p c.negated).scale * gain) * c.negated.relation.relaxationSign =
      c.relation.restate
        (p.objective.sense.sign * ((rowOf p c).scale * gain) * c.relation.relaxationSign) := by
  rw [(rowOf_negated starts).2, Constraint.negated]
  cases c.relation <;> simp [Relation.flip, Relation.relaxationSign, Relation.restate]

include hc starts

/-- **Restating a constraint changes nothing but a mark.** -/
theorem congruent_restated : (ofProgram (p.restated k)).Congruent (ofProgram p) where
  lower := rfl
  gains := rfl
  rows := by
    have rows : ((p.restated k).constraints.map (rowOf p)).map StandardRow.unmarked =
        (p.constraints.map (rowOf p)).map StandardRow.unmarked := by
      apply List.ext_getElem?
      intro i
      rw [List.map_map, List.map_map, List.getElem?_map, List.getElem?_map, Program.getElem?_restated,
        Option.map_map]
      by_cases same : k = i
      · subst same
        rw [hc]
        simp only [Option.map_some, Function.comp_apply, if_true, (rowOf_negated starts).1]
      · simp [same, Function.comp_def]
    have constraints (q : Program ℚ) : q.constraints.map (fun c =>
        StandardRow.normalize c.coefficients c.relation
          (c.limit - dot c.coefficients (q.vars.map (·.lower)))) = q.constraints.map (rowOf q) := rfl
    simp only [ofProgram, constraints, List.map_append]
    rw [← rows]
    rfl

/-- **The dual value turns around twice for an inequality, and once for an equality.** -/
theorem duals_restated (t : Tableau ℚ) : (ofProgram (p.restated k)).duals (p.restated k) t =
    ((ofProgram p).duals p t).modify k c.relation.restate := by
  have rowDual : (ofProgram (p.restated k)).rowDual t = (ofProgram p).rowDual t := by
    funext i
    rw [StandardForm.rowDual, StandardForm.rowDual, unitColumn, unitColumn,
      (congruent_restated hc starts).slots]
  have dual : ∀ i d, (p.restated k).constraints[i]? = some d →
      ((ofProgram (p.restated k)).duals (p.restated k) t)[i]? =
        some (p.objective.sense.sign * ((rowOf p d).scale * (ofProgram p).rowDual t i) *
          d.relation.relaxationSign) := by
    intro i d hd
    rw [getElem?_duals hd, rowDual]
    rfl
  apply List.ext_getElem?
  intro i
  rw [List.getElem?_modify]
  cases hi : p.constraints[i]? with
  | none =>
    have outside : p.constraints.length ≤ i := List.getElem?_eq_none_iff.mp hi
    have outside' : (p.restated k).constraints.length ≤ i := by
      rwa [Program.restated, List.length_modify]
    rw [List.getElem?_eq_none (length_duals.trans_le outside'),
      List.getElem?_eq_none (length_duals.trans_le outside)]
    rfl
  | some d =>
    rw [getElem?_duals hi, Option.map_eq_map, Option.map_some]
    by_cases same : k = i
    · subst same
      obtain rfl := Option.some.inj (hc.symm.trans hi)
      rw [dual k c.negated (by rw [Program.getElem?_restated, hc, Option.map_some, if_pos rfl]), if_pos rfl,
        dual_negated starts]
    · rw [dual i d (by rw [Program.getElem?_restated, hi, Option.map_some, if_neg same]), if_neg same]

end Program

end StandardForm

end Simplex

/-! ## The solutions -/

/-- **Solutions that differ by how one constraint is written.** -/
structure Solution.Restates (k : ℕ) (relation : Relation) (a b : Solution ℚ) : Prop where
  status : a.status = b.status
  pivots : a.pivots = b.pivots
  names : a.names = b.names
  values : a.values = b.values
  objective : a.objective = b.objective
  reducedCosts : a.reducedCosts = b.reducedCosts
  basic : a.basic = b.basic
  usage : a.usage = b.usage.modify k (Usage.restated relation)
  binding : a.usage.map (·.binding) = b.usage.map (·.binding)
  duals : a.duals = b.duals.modify k relation.restate

theorem Solution.withoutPoint_restates (p : Program ℚ) (k : ℕ) (relation : Relation) (status : Status)
    (violations violations' : List (Violation ℚ)) (pivots : ℕ) :
    (withoutPoint (p.restated k) status violations pivots).Restates k relation
      (withoutPoint p status violations' pivots) :=
  ⟨rfl, rfl, rfl, rfl, rfl, rfl, rfl, (List.modify_nil ..).symm, rfl, (List.modify_nil ..).symm⟩

/-- The usage of a restated program at a point. -/
theorem Program.usage_restated {p : Program ℚ} {k : ℕ} {c : Constraint ℚ}
    (hc : p.constraints[k]? = some c) (x : List ℚ) (tolerance : ℚ) :
    (p.restated k).usage x tolerance = (p.usage x tolerance).modify k (Usage.restated c.relation) := by
  rw [usage, usage, restated]
  apply List.ext_getElem?
  intro i
  rw [List.getElem?_map, List.getElem?_modify, List.getElem?_modify, List.getElem?_map]
  by_cases same : k = i
  · subst same
    simp [hc, Constraint.usage_negated]
  · simp [same]

namespace Simplex

open StandardForm

section Solve

variable {p : Program ℚ} {k : ℕ} {c : Constraint ℚ} (hc : p.constraints[k]? = some c)
  (starts : c.limit ≠ dot c.coefficients p.lowerBounds) (s : SolverSettings ℚ)
include hc starts

theorem solution_restates (t : Tableau ℚ) (pivots : ℕ) :
    ((ofProgram (p.restated k)).solution (p.restated k) s t pivots).Restates k c.relation
      ((ofProgram p).solution p s t pivots) where
  status := rfl
  pivots := rfl
  names := rfl
  values := rfl
  objective := rfl
  reducedCosts := (congruent_restated hc starts).reducedCosts p t
  basic := (congruent_restated hc starts).basicFlags t
  usage := Program.usage_restated hc _ _
  binding := by
    change ((p.restated k).usage _ _).map _ = _
    rw [Program.usage_restated hc]
    apply List.ext_getElem?
    intro i
    rw [List.getElem?_map, List.getElem?_map, List.getElem?_modify, Option.map_eq_map, Option.map_map]
    congr 1
    funext u
    rw [Function.comp_apply]
    split <;> rfl
  duals := duals_restated hc starts t

theorem solve_restates : (solve s (p.restated k)).Restates k c.relation (solve s p) := by
  have congruent := congruent_restated hc starts
  have second := congruent.secondPhase s
  simp only [solve, congruent.start s, second]
  cases (ofProgram p).start s with
  | limit pivots => exact Solution.withoutPoint_restates ..
  | infeasible t pivots => exact Solution.withoutPoint_restates ..
  | feasible t pivots =>
    cases stop : ((ofProgram p).secondPhase s t pivots).stop with
    | limit => simp only [stop]; exact Solution.withoutPoint_restates ..
    | unbounded => simp only [stop]; exact Solution.withoutPoint_restates ..
    | optimal => simp only [stop]; exact solution_restates hc starts s _ _

end Solve

/-- **The way a constraint is written does not matter.** A constraint whose row does not start at zero may
be restated: the program stays well formed, and under all settings it is solved by as many pivots and
with the same result, up to the sign of what is counted along an equality. -/
theorem solve_restated {p : Program ℚ} (h : p.WellFormed) {k : ℕ} {c : Constraint ℚ}
    (hc : p.constraints[k]? = some c) (starts : c.limit ≠ dot c.coefficients p.lowerBounds) :
    (p.restated k).WellFormed ∧
      ∀ s, (solve s (p.restated k)).Restates k c.relation (solve s p) :=
  ⟨h.restated k, solve_restates hc starts⟩

theorem solve_restated_sample :
    (Program.sample.WellFormed ∧ (solve ⟨100, 0, 0⟩ Program.sample).status = .optimal ∧
      (solve ⟨100, 0, 0⟩ Program.sample).duals = [0, 1 / 3, 5 / 3]) ∧
    (Program.sample.constraints[2]? = some ⟨"mix", [2, 1], .equal, 5⟩ ∧
      (5 : ℚ) ≠ dot [2, 1] Program.sample.lowerBounds) ∧
    (Program.sample.restated 2).WellFormed ∧
      ∀ s, (solve s (Program.sample.restated 2)).Restates 2 .equal (solve s Program.sample) := by
  have wellFormed := Program.sample.flaw?_eq_none_iff.mp Program.flaw?_sample
  have starts : (5 : ℚ) ≠ dot [2, 1] Program.sample.lowerBounds := by decide +kernel
  have mix : Program.sample.constraints[2]? = some ⟨"mix", [2, 1], .equal, 5⟩ := rfl
  exact ⟨⟨wellFormed, by decide +kernel, by decide +kernel⟩, ⟨mix, starts⟩,
    solve_restated wellFormed mix starts⟩

end Simplex

end Allotment
