import Allotment.Proofs.Change
import Allotment.Proofs.Relaxation

/-!
# The points that a limit allows

A program with another limit of one constraint. A looser limit allows more points (`Feasible.looser`),
and on the way from a point that one limit allows to a point that another allows every point is allowed
by the limit that is as far on its way (`Feasible.mix`), since all constraints are linear. Moving a
limit relaxes the program by the distance (`relaxed_withLimit`), so the prices at one limit say what the
points of any other can gain.
-/

namespace Allotment
set_option autoImplicit false

/-! ## On the way between two points -/

/-- The number that is some part of the way from one to another. -/
def interpolate (part a b : ℚ) : ℚ := a + part * (b - a)

/-- The point that is some part of the way from one to another. -/
def mix (part : ℚ) (x y : List ℚ) : List ℚ := List.zipWith (interpolate part) x y

section Interpolate

variable {part : ℚ}

theorem interpolate_self (part a : ℚ) : interpolate part a a = a := by
  rw [interpolate, sub_self, mul_zero, add_zero]

theorem interpolate_mono (nonneg : 0 ≤ part) (le_one : part ≤ 1) {a b a' b' : ℚ} (ha : a ≤ a')
    (hb : b ≤ b') : interpolate part a b ≤ interpolate part a' b' := by
  have first := mul_le_mul_of_nonneg_left ha (sub_nonneg.mpr le_one)
  have second := mul_le_mul_of_nonneg_left hb nonneg
  unfold interpolate
  linarith

theorem dot_mix (row : List ℚ) {x y : List ℚ} (same : x.length = y.length) :
    dot row (mix part x y) = interpolate part (dot row x) (dot row y) := by
  simp only [dot, sum_rat]
  induction row generalizing x y with
  | nil => simp [interpolate]
  | cons a row ih =>
    cases x with
    | nil =>
      obtain rfl := List.length_eq_zero_iff.mp same.symm
      simp [mix, interpolate]
    | cons q x =>
      cases y with
      | nil => cases same
      | cons q' y =>
        have rest := ih (Nat.succ.inj same)
        rw [mix, List.zipWith_cons_cons, List.zipWith_cons_cons, List.sum_cons]
        change a * interpolate part q q' + (List.zipWith (· * ·) row (mix part x y)).sum = _
        rw [rest, List.zipWith_cons_cons, List.sum_cons, List.zipWith_cons_cons, List.sum_cons]
        unfold interpolate
        ring

variable (nonneg : 0 ≤ part) (le_one : part ≤ 1)
include nonneg le_one

theorem Relation.Holds.interpolate {relation : Relation} {a b l m : ℚ} (ha : relation.Holds a l)
    (hb : relation.Holds b m) : relation.Holds (interpolate part a b) (interpolate part l m) := by
  cases relation with
  | atMost => exact interpolate_mono nonneg le_one ha hb
  | atLeast => exact interpolate_mono nonneg le_one ha hb
  | equal => exact congrArg₂ (Allotment.interpolate part) ha hb

theorem Variable.Admits.interpolate {v : Variable ℚ} {a b : ℚ} (ha : v.Admits a) (hb : v.Admits b) :
    v.Admits (interpolate part a b) := by
  refine ⟨?_, fun u hu => ?_⟩
  · rw [← interpolate_self part v.lower]
    exact interpolate_mono nonneg le_one ha.1 hb.1
  · rw [← interpolate_self part u]
    exact interpolate_mono nonneg le_one (ha.2 u hu) (hb.2 u hu)

theorem Program.Within.mix {p : Program ℚ} {x y : List ℚ} (hx : p.Within x) (hy : p.Within y) :
    p.Within (mix part x y) := by
  unfold Within at hx hy ⊢
  generalize p.vars = vs at hx hy
  induction hx generalizing y with
  | nil =>
    cases hy
    exact .nil
  | cons ha _ ih =>
    cases hy with
    | cons hb rest => exact .cons (ha.interpolate nonneg le_one hb) (ih rest)

end Interpolate

theorem Relation.Holds.trans {relation : Relation} {a b c : ℚ} (h : relation.Holds a b)
    (h' : relation.Holds b c) : relation.Holds a c := by
  unfold Holds at h h' ⊢
  cases relation with
  | atMost => exact h.trans h'
  | atLeast => exact h'.trans h
  | equal => exact h.trans h'

/-! ## Another limit -/

namespace Program

/-- The program with another limit of the constraint at a place. -/
def withLimit (p : Program ℚ) (k : ℕ) (limit : ℚ) : Program ℚ := p.modifyLimit k fun _ => limit

variable {p : Program ℚ} {k : ℕ} {c : Constraint ℚ} {x y : List ℚ}

theorem getElem?_withLimit (limit : ℚ) (i : ℕ) : (p.withLimit k limit).constraints[i]? =
    (p.constraints[i]?).map fun e => { e with limit := if k = i then limit else e.limit } := by
  rw [withLimit, modifyLimit, modifyConstraint, List.getElem?_modify]
  by_cases same : k = i
  · simp [same]
  · simp [same]

/-- **What a point of the program with another limit is.** -/
theorem feasible_withLimit_iff {limit : ℚ} : (p.withLimit k limit).Feasible x ↔ p.Within x ∧
    ∀ (i : ℕ) (e : Constraint ℚ), p.constraints[i]? = some e →
      e.relation.Holds (e.consumed x) (if k = i then limit else e.limit) := by
  constructor
  · rintro ⟨within, holds⟩
    refine ⟨within, fun i e he => ?_⟩
    exact holds { e with limit := if k = i then limit else e.limit }
      (List.mem_of_getElem? (i := i) (by rw [getElem?_withLimit, he]; rfl))
  · rintro ⟨within, holds⟩
    refine ⟨within, fun d hd => ?_⟩
    obtain ⟨i, hi⟩ := List.getElem?_of_mem hd
    rw [getElem?_withLimit, Option.map_eq_some_iff] at hi
    obtain ⟨e, he, rfl⟩ := hi
    exact holds i e he

/-- **A looser limit allows every point that a tighter one allows.** -/
theorem Feasible.looser (hc : p.constraints[k]? = some c) {tight loose : ℚ}
    (looser : c.relation.Holds tight loose) (feasible : (p.withLimit k tight).Feasible x) :
    (p.withLimit k loose).Feasible x := by
  obtain ⟨within, holds⟩ := feasible_withLimit_iff.mp feasible
  refine feasible_withLimit_iff.mpr ⟨within, fun i e he => ?_⟩
  have held := holds i e he
  by_cases same : k = i
  · subst same
    obtain rfl := Option.some.inj (hc.symm.trans he)
    rw [if_pos rfl] at held ⊢
    exact held.trans looser
  · rwa [if_neg same] at held ⊢

/-- **Between the points of two limits are points of the limits between.** -/
theorem Feasible.mix {part l m : ℚ} (nonneg : 0 ≤ part) (le_one : part ≤ 1)
    (hx : (p.withLimit k l).Feasible x) (hy : (p.withLimit k m).Feasible y) :
    (p.withLimit k (interpolate part l m)).Feasible (mix part x y) := by
  obtain ⟨withinX, holdsX⟩ := feasible_withLimit_iff.mp hx
  obtain ⟨withinY, holdsY⟩ := feasible_withLimit_iff.mp hy
  refine feasible_withLimit_iff.mpr ⟨withinX.mix nonneg le_one withinY, fun i e he => ?_⟩
  have held := (holdsX i e he).interpolate nonneg le_one (holdsY i e he)
  rw [Constraint.consumed, dot_mix _ (withinX.length_eq.symm.trans withinY.length_eq)]
  by_cases same : k = i
  · rw [if_pos same, if_pos same] at held
    rwa [if_pos same]
  · rw [if_neg same, if_neg same, interpolate_self] at held
    rwa [if_neg same]

theorem valueAt_mix (part : ℚ) (same : x.length = y.length) :
    p.valueAt (Allotment.mix part x y) = interpolate part (p.valueAt x) (p.valueAt y) :=
  dot_mix _ same

/-- Another limit is a relaxation by the distance. -/
theorem withLimit_eq_relaxed (hc : p.constraints[k]? = some c) (limit : ℚ) :
    p.withLimit k limit = p.relaxed k (c.relation.relaxationSign * (limit - c.limit)) := by
  have constraints : (p.withLimit k limit).constraints =
      (p.relaxed k (c.relation.relaxationSign * (limit - c.limit))).constraints := by
    apply List.ext_getElem?
    intro i
    rw [getElem?_withLimit, getElem?_relaxed]
    by_cases same : k = i
    · subst same
      rw [hc, Option.map_some, Option.map_some, oneMove_self, if_pos rfl, Constraint.relaxed]
      cases relation : c.relation <;> simp [Relation.relaxationSign]
    · rw [oneMove_of_ne (Ne.symm same)]
      simp only [if_neg same, Constraint.relaxed_zero]
  calc p.withLimit k limit = { p with constraints := (p.withLimit k limit).constraints } := rfl
    _ = { p with constraints := (p.relaxed k _).constraints } := by rw [constraints]
    _ = p.relaxed k (c.relation.relaxationSign * (limit - c.limit)) := rfl

/-- **Moving a limit relaxes the program by the distance.** -/
theorem relaxed_withLimit (hc : p.constraints[k]? = some c) (l m : ℚ) :
    (p.withLimit k l).relaxed k (c.relation.relaxationSign * (m - l)) = p.withLimit k m := by
  rw [withLimit_eq_relaxed hc, withLimit_eq_relaxed hc, relaxed_relaxed]
  congr 1
  ring

theorem WellFormed.withLimit (h : p.WellFormed) (hc : p.constraints[k]? = some c) (limit : ℚ) :
    (p.withLimit k limit).WellFormed := by
  rw [withLimit_eq_relaxed hc]
  exact h.relaxed k _

/-- A constraint is found at its place by its label. -/
theorem WellFormed.constraintIndex?_label (h : p.WellFormed) (hc : p.constraints[k]? = some c) :
    p.constraintIndex? c.label = some k := by
  obtain ⟨inside, rfl⟩ := List.getElem?_eq_some_iff.mp hc
  rw [constraintIndex?, List.findIdx?_eq_some_iff_getElem]
  refine ⟨inside, beq_self_eq_true _, fun i hi equal => ?_⟩
  have before : i < p.constraints.length := hi.trans inside
  have same : p.labels[i]? = p.labels[k]? := by
    rw [Program.labels, List.getElem?_map, List.getElem?_map, List.getElem?_eq_getElem before,
      List.getElem?_eq_getElem inside, Option.map_some, Option.map_some, eq_of_beq equal]
  have place := (List.getElem?_inj (by rwa [Program.labels, List.length_map]) h.labels).mp same
  omega

/-- **The change of a limit finds its constraint and leaves the program well formed.** -/
theorem changed_limit (h : p.WellFormed) (hc : p.constraints[k]? = some c) (limit : ℚ) :
    p.changed [.limit c.label limit] = .ok (p.withLimit k limit) := by
  have place : p.constraintAt c.label = .ok k := constraintAt_eq_ok_iff.mpr (h.constraintIndex?_label hc)
  have applied : p.applyAll [.limit c.label limit] = .ok (p.withLimit k limit) := by
    unfold applyAll
    rw [List.foldlM_cons, Change.apply, place]
    rfl
  rw [changed, applied]
  exact checked_eq_ok_iff.mpr ⟨(flaw?_eq_none_iff _).mpr (h.withLimit hc limit), rfl⟩

end Program

end Allotment
