import Allotment.Proofs.PriceSystem
import Allotment.Proofs.Simplex.Slope

/-!
# Relaxed programs and their prices

A program whose limit of one constraint is moved is reached by the points that the shifted rows of the
program allow, so its optimum moves at one rate for all small steps. Prices of the relaxed program are
prices of the program for the value that is left when the step is paid for (`PricedBy.of_relaxed`);
where the rate is the same on both sides of a step that value is the old one. Hence what a small step
gains is the least price that the constraint has in any system of prices
(`exists_small_step`).
-/

namespace Allotment
set_option autoImplicit false

theorem Constraint.relaxed_zero (c : Constraint ℚ) : c.relaxed 0 = c := by
  rw [relaxed, mul_zero, add_zero]

theorem Constraint.relaxed_relaxed (c : Constraint ℚ) (a b : ℚ) :
    (c.relaxed a).relaxed b = c.relaxed (a + b) := by
  unfold relaxed
  rw [mul_add, add_assoc]

/-- A constraint still holds where it is tightened by its slack. -/
theorem Constraint.Holds.relaxed_neg_slack {c : Constraint ℚ} {x : List ℚ} (holds : c.Holds x) :
    (c.relaxed (-c.slack (c.consumed x))).Holds x := by
  unfold Constraint.Holds Relation.Holds at holds
  unfold Constraint.Holds Constraint.relaxed Relation.Holds Constraint.slack Relation.relaxationSign
  cases relation : c.relation with
  | atMost =>
    simp only [Constraint.consumed]
    linarith
  | atLeast =>
    simp only [Constraint.consumed]
    linarith
  | equal =>
    simp only [relation] at holds
    rw [holds, sub_self, neg_zero, mul_zero, add_zero]
    exact holds

/-- Only an inequality has slack where it holds. -/
theorem Constraint.Holds.slack_pos {c : Constraint ℚ} {x : List ℚ} (holds : c.Holds x)
    (free : c.slack (c.consumed x) ≠ 0) : 0 < c.slack (c.consumed x) ∧ c.relation ≠ .equal := by
  unfold Constraint.Holds Relation.Holds at holds
  unfold Constraint.slack at free ⊢
  cases relation : c.relation with
  | atMost =>
    simp only [relation] at holds free ⊢
    exact ⟨lt_of_le_of_ne (sub_nonneg.mpr holds) (Ne.symm free), nofun⟩
  | atLeast =>
    simp only [relation] at holds free ⊢
    exact ⟨lt_of_le_of_ne (sub_nonneg.mpr holds) (Ne.symm free), nofun⟩
  | equal =>
    simp only [relation] at holds free
    exact absurd (sub_eq_zero.mpr holds.symm) free

namespace Program

variable {p : Program ℚ} {k : ℕ} {step : ℚ} {x : List ℚ}

theorem relaxed_relaxed (p : Program ℚ) (k : ℕ) (a b : ℚ) :
    (p.relaxed k a).relaxed k b = p.relaxed k (a + b) := by
  unfold relaxed
  rw [List.modify_modify_eq]
  congr 2
  funext c
  exact c.relaxed_relaxed a b

theorem relaxed_zero (p : Program ℚ) (k : ℕ) : p.relaxed k 0 = p := by
  unfold relaxed
  rw [show (fun c : Constraint ℚ => c.relaxed 0) = id from funext Constraint.relaxed_zero, List.modify_id]

/-- A move of one limit only. -/
def oneMove (k : ℕ) (step : ℚ) : ℕ → ℚ := Pi.single k step

theorem oneMove_self : oneMove k step k = step := Pi.single_eq_same _ _

theorem oneMove_of_ne {i : ℕ} (ne : i ≠ k) : oneMove k step i = 0 := Pi.single_eq_of_ne ne _

/-- The constraints of a relaxed program are those of the program, each relaxed by its own amount. -/
theorem getElem?_relaxed (i : ℕ) : (p.relaxed k step).constraints[i]? =
    (p.constraints[i]?).map fun c => c.relaxed (oneMove k step i) := by
  rw [relaxed, List.getElem?_modify]
  by_cases same : k = i
  · subst same
    simp [oneMove_self]
  · rw [oneMove_of_ne (Ne.symm same)]
    simp [same, Constraint.relaxed_zero]

theorem length_relaxed : (p.relaxed k step).constraints.length = p.constraints.length :=
  List.length_modify _ _ _

theorem WellFormed.relaxed (h : p.WellFormed) (k : ℕ) (step : ℚ) : (p.relaxed k step).WellFormed where
  nonempty := h.nonempty
  names := h.names
  bounds := h.bounds
  objective := h.objective
  labels := by
    have labels : (p.relaxed k step).labels = p.labels := by
      unfold Program.labels
      apply List.ext_getElem?
      intro i
      rw [List.getElem?_map, List.getElem?_map, getElem?_relaxed, Option.map_map]
      rfl
    rw [labels]
    exact h.labels
  rows c hc := by
    obtain ⟨i, hi⟩ := List.getElem?_of_mem hc
    rw [getElem?_relaxed, Option.map_eq_some_iff] at hi
    obtain ⟨d, hd, rfl⟩ := hi
    exact h.rows d (List.mem_of_getElem? hd)
  limits _ _ := rfl

/-- **What it is to be feasible in a relaxed program.** -/
theorem feasible_relaxed_iff : (p.relaxed k step).Feasible x ↔ p.Within x ∧
    ∀ (i : ℕ) (c : Constraint ℚ), p.constraints[i]? = some c → (c.relaxed (oneMove k step i)).Holds x := by
  constructor
  · rintro ⟨within, holds⟩
    refine ⟨within, fun i c hc => holds _ (List.mem_of_getElem? (i := i) ?_)⟩
    rw [getElem?_relaxed, hc]
    rfl
  · rintro ⟨within, holds⟩
    refine ⟨within, fun c hc => ?_⟩
    obtain ⟨i, hi⟩ := List.getElem?_of_mem hc
    rw [getElem?_relaxed, Option.map_eq_some_iff] at hi
    obtain ⟨d, hd, rfl⟩ := hi
    exact holds i d hd

/-! ## Prices -/

/-- The cost of moving a single limit. -/
theorem sum_single (inside : k < p.constraints.length) (prices : ℕ → ℚ) :
    ∑ i ∈ Finset.range p.constraints.length, prices i * oneMove k step i = prices k * step := by
  rw [Finset.sum_eq_single_of_mem k (Finset.mem_range.mpr inside)]
  · rw [oneMove_self]
  · intro i _ ne
    rw [oneMove_of_ne ne, mul_zero]

/-- **No point of a relaxed program gains more than the step costs.** -/
theorem PricedBy.improvement_relaxed_le {value : ℚ} {prices : List ℚ} (priced : p.PricedBy value prices)
    (inside : k < p.constraints.length) (feasible : (p.relaxed k step).Feasible x) :
    p.objective.sense.sign * (p.valueAt x - value) ≤ p.objective.sense.sign * prices.getD k 0 * step := by
  obtain ⟨within, holds⟩ := feasible_relaxed_iff.mp feasible
  have bound := priced.bounds (oneMove k step) x within holds
  rwa [sum_single inside fun i => p.objective.sense.sign * prices.getD i 0] at bound

/-- **The prices of a relaxed program are prices of the program**, for the value that is left when the
step is paid for. -/
theorem PricedBy.of_relaxed {value : ℚ} {prices : List ℚ} (inside : k < p.constraints.length)
    (priced : (p.relaxed k step).PricedBy value prices) :
    p.PricedBy (value - prices.getD k 0 * step) prices where
  length := priced.length.trans length_relaxed
  bounds d x within holds := by
    have bound := priced.bounds (d - oneMove k step) x within fun i c hc => by
      rw [getElem?_relaxed, Option.map_eq_some_iff] at hc
      obtain ⟨e, he, rfl⟩ := hc
      rw [Constraint.relaxed_relaxed, Pi.sub_apply, add_sub_cancel]
      exact holds i e he
    have cost : ∑ i ∈ Finset.range (p.relaxed k step).constraints.length,
          p.objective.sense.sign * prices.getD i 0 * (d - oneMove k step) i =
        ∑ i ∈ Finset.range p.constraints.length, p.objective.sense.sign * prices.getD i 0 * d i -
          p.objective.sense.sign * prices.getD k 0 * step := by
      rw [length_relaxed, ← sum_single inside fun i => p.objective.sense.sign * prices.getD i 0,
        ← Finset.sum_sub_distrib]
      exact Finset.sum_congr rfl fun i _ => by rw [Pi.sub_apply, mul_sub]
    change p.objective.sense.sign * (p.valueAt x - value) ≤
      ∑ i ∈ Finset.range (p.relaxed k step).constraints.length,
        p.objective.sense.sign * prices.getD i 0 * (d - oneMove k step) i at bound
    rw [cost] at bound
    linarith
  sign i c hc inequality :=
    priced.sign i (c.relaxed (oneMove k step i)) (by rw [getElem?_relaxed, hc]; rfl) inequality

/-- **The least price of a constraint**: some system of prices for the value has it, and in the sense of
the program none has a lesser one. -/
structure LeastPrice (p : Program ℚ) (value : ℚ) (k : ℕ) (price : ℚ) : Prop where
  attained : ∃ prices, p.PricedBy value prices ∧ prices.getD k 0 = price
  least : ∀ prices, p.PricedBy value prices →
    p.objective.sense.sign * price ≤ p.objective.sense.sign * prices.getD k 0

theorem sign_cancel (sense : Sense) {a b : ℚ} (same : sense.sign * a = sense.sign * b) : a = b := by
  cases sense with
  | maximize => simpa [Sense.sign] using same
  | minimize => simpa [Sense.sign] using same

theorem LeastPrice.unique {value a b : ℚ} (ha : p.LeastPrice value k a) (hb : p.LeastPrice value k b) :
    a = b := by
  obtain ⟨as, pricedA, rfl⟩ := ha.attained
  obtain ⟨bs, pricedB, rfl⟩ := hb.attained
  exact sign_cancel p.objective.sense (le_antisymm (ha.least bs pricedB) (hb.least as pricedA))

/-- **A constraint with slack at an optimum has no other price than zero.** -/
theorem PricedBy.eq_zero_of_slack {prices : List ℚ} (priced : p.PricedBy (p.valueAt x) prices)
    (feasible : p.Feasible x) {c : Constraint ℚ} (hc : p.constraints[k]? = some c)
    (free : c.slack (c.consumed x) ≠ 0) : prices.getD k 0 = 0 := by
  obtain ⟨inside, -⟩ := List.getElem?_eq_some_iff.mp hc
  have holds := feasible.holds c (List.mem_of_getElem? hc)
  -- the limit can be tightened by the slack, which gains nothing and costs nothing
  have tightened : (p.relaxed k (-c.slack (c.consumed x))).Feasible x := by
    refine feasible_relaxed_iff.mpr ⟨feasible.within, fun i d hd => ?_⟩
    by_cases same : i = k
    · subst same
      obtain rfl := Option.some.inj (hc.symm.trans hd)
      rw [oneMove_self]
      exact holds.relaxed_neg_slack
    · rw [oneMove_of_ne same, Constraint.relaxed_zero]
      exact feasible.holds d (List.mem_of_getElem? hd)
  have cost := priced.improvement_relaxed_le inside tightened
  rw [sub_self, mul_zero] at cost
  obtain ⟨positive, inequality⟩ := holds.slack_pos free
  have nonneg := priced.sign k c hc inequality
  have nonpos : p.objective.sense.sign * prices.getD k 0 ≤ 0 := by
    by_contra more
    have product := mul_pos (not_le.mp more) positive
    linarith
  exact sign_cancel p.objective.sense (by rw [mul_zero]; exact le_antisymm nonpos nonneg)

/-- **Where a step and its double gain at one rate, the rate is the least price of the constraint**: the
prices of the relaxed program pay for going on to the double and for going back to the start. -/
theorem leastPrice_of_rate (feasible : p.Feasible x) (inside : k < p.constraints.length) (pos : 0 < step)
    {slope : ℚ}
    (bound : ∀ y, (p.relaxed k step).Feasible y →
      p.objective.sense.improvement (p.valueAt y) (p.valueAt x) ≤ step * slope)
    (once : ∃ y, (p.relaxed k step).Feasible y ∧
      p.objective.sense.improvement (p.valueAt y) (p.valueAt x) = step * slope)
    (twice : ∃ y, (p.relaxed k (step + step)).Feasible y ∧
      p.objective.sense.improvement (p.valueAt y) (p.valueAt x) = (step + step) * slope)
    {y prices : List ℚ} (reached : (p.relaxed k step).Feasible y)
    (priced : (p.relaxed k step).PricedBy (p.valueAt y) prices) :
    p.LeastPrice (p.valueAt x) k ((p.valueAt y - p.valueAt x) / step) := by
  have inside' : k < (p.relaxed k step).constraints.length := length_relaxed.symm ▸ inside
  have moved : ∀ (amount : ℚ) {z : List ℚ}, (p.relaxed k (step + amount)).Feasible z →
      p.objective.sense.sign * (p.valueAt z - p.valueAt y) ≤
        p.objective.sense.sign * prices.getD k 0 * amount := by
    intro amount z feasible
    rw [← relaxed_relaxed] at feasible
    exact priced.improvement_relaxed_le inside' feasible
  unfold Sense.improvement at bound once twice
  obtain ⟨best, attains, gain⟩ := once
  obtain ⟨far, attains', gain'⟩ := twice
  have stay := moved 0 (by rwa [add_zero])
  have forth := moved step attains'
  have back := moved (-step) (by rwa [add_neg_cancel, relaxed_zero])
  have most := bound y reached
  have paid : p.valueAt y - p.valueAt x = prices.getD k 0 * step := by
    refine sign_cancel p.objective.sense ?_
    linarith
  refine ⟨⟨prices, ?_, ?_⟩, fun others priced' => ?_⟩
  · have left := priced.of_relaxed inside
    rwa [← paid, sub_sub_cancel] at left
  · rw [paid, mul_div_cancel_right₀ _ pos.ne']
  · have cost := priced'.improvement_relaxed_le inside reached
    rw [← mul_div_assoc, div_le_iff₀ pos]
    exact cost

end Program

namespace Simplex.StandardForm

open Program

variable {p : Program ℚ} {k : ℕ} {step : ℚ} {x : List ℚ}

/-- How the right-hand sides of the rows move when a constraint is relaxed by one unit. -/
def direction (p : Program ℚ) (k : ℕ) : ℕ → ℚ := carried p (relaxing p (oneMove k 1))

theorem carried_oneMove : carried p (relaxing p (oneMove k step)) = step • direction p k := by
  funext i
  rw [Pi.smul_apply, smul_eq_mul, direction]
  cases hc : p.constraints[i]? with
  | none => rw [carried_none hc, carried_none hc, mul_zero]
  | some c =>
    rw [carried_constraint hc, carried_constraint hc, relaxing_constraint hc, relaxing_constraint hc]
    by_cases same : i = k
    · subst same
      rw [oneMove_self, oneMove_self]
      ring
    · rw [oneMove_of_ne same, oneMove_of_ne same]
      ring

section WellFormed

variable (h : p.WellFormed)
include h

/-- **A relaxed program allows the points that the rows allow with their right-hand sides moved.** -/
theorem reaches_direction_iff {z : ℕ → ℚ} : (ofProgram p).Reaches (step • direction p k) z ↔
    (p.relaxed k step).Feasible ((ofProgram p).corner z) := by
  rw [feasible_relaxed_iff, within_corner_iff, ← carried_oneMove]
  constructor
  · rintro ⟨nonneg, meets⟩
    rw [variableCount_ofProgram] at nonneg
    obtain ⟨holds, bounds⟩ := (meets_carried_iff h _).mp meets
    refine ⟨fun j v hv => ⟨nonneg j (List.getElem?_eq_some_iff.mp hv).1, bounds j v hv⟩, fun i c hc => ?_⟩
    have moved := holds i c hc
    rwa [relaxing_constraint hc] at moved
  · rintro ⟨bounds, holds⟩
    refine ⟨fun j hj => ?_, (meets_carried_iff h _).mpr ⟨fun i c hc => ?_, fun j v hv => (bounds j v hv).2⟩⟩
    · rw [variableCount_ofProgram] at hj
      exact (bounds j _ (List.getElem?_eq_getElem hj)).1
    · rw [relaxing_constraint hc]
      exact holds i c hc

/-- **What relaxing a constraint gains per step is the same for all small steps.** -/
theorem exists_slope_relaxed (feasible : p.Feasible x) {prices : List ℚ}
    (priced : p.PricedBy (p.valueAt x) prices) (inside : k < p.constraints.length) (pos : 0 < step)
    {y : List ℚ} (reached : (p.relaxed k step).Feasible y) :
    ∃ slope small, 0 < small ∧ ∀ step, 0 < step → step ≤ small →
      (∃ y, (p.relaxed k step).Feasible y ∧
        p.objective.sense.improvement (p.valueAt y) (p.valueAt x) = step * slope) ∧
      ∀ y, (p.relaxed k step).Feasible y →
        p.objective.sense.improvement (p.valueAt y) (p.valueAt x) ≤ step * slope := by
  have base := corner_shifted_of_within feasible.within
  have better : ∀ z, p.objective.sense.improvement (p.valueAt ((ofProgram p).corner z)) (p.valueAt x) =
      weigh (ofProgram p).gains z - weigh (ofProgram p).gains ((ofProgram p).shifted x) := by
    intro z
    rw [← improvement_corner h, base]
  have restored : ∀ {step : ℚ} {y : List ℚ}, (p.relaxed k step).Feasible y →
      (ofProgram p).Reaches (step • direction p k) ((ofProgram p).shifted y) := by
    intro step y feasible
    rw [reaches_direction_iff h, corner_shifted_of_within (p := p) feasible.within]
    exact feasible
  have start : (ofProgram p).Reaches 0 ((ofProgram p).shifted x) := by
    rw [← zero_smul ℚ (direction p k)]
    refine restored ?_
    rwa [relaxed_zero]
  have bounded : ∀ step, 0 < step → ∀ z, (ofProgram p).Reaches (step • direction p k) z →
      weigh (ofProgram p).gains z ≤ weigh (ofProgram p).gains ((ofProgram p).shifted x) +
        step * (p.objective.sense.sign * prices.getD k 0) := by
    intro step _ z reaches
    have cost := priced.improvement_relaxed_le inside ((reaches_direction_iff h).mp reaches)
    have gain := better z
    unfold Sense.improvement at gain
    rw [gain] at cost
    linarith
  obtain ⟨slope, small, positive, rate⟩ :=
    exists_slope (ofProgram_proper h) start bounded pos (restored reached)
  refine ⟨slope, small, positive, fun step pos le => ?_⟩
  obtain ⟨⟨z, reaches, gains⟩, least⟩ := rate step pos le
  refine ⟨⟨_, (reaches_direction_iff h).mp reaches, ?_⟩, fun y feasible => ?_⟩
  · rw [better, gains]
    ring
  · have bound := least _ (restored feasible)
    rw [← corner_shifted_of_within (p := p) feasible.within, better]
    linarith

/-- **What a small step gains is the least price of the constraint**, at any optimum of the relaxed
program that has prices. -/
theorem exists_small_step (feasible : p.Feasible x) {prices : List ℚ}
    (priced : p.PricedBy (p.valueAt x) prices) (inside : k < p.constraints.length) :
    ∃ small, 0 < small ∧ ∀ step, 0 < step → step ≤ small → ∀ (y prices' : List ℚ),
      (p.relaxed k step).Feasible y → (p.relaxed k step).PricedBy (p.valueAt y) prices' →
      p.LeastPrice (p.valueAt x) k ((p.valueAt y - p.valueAt x) / step) := by
  by_cases reachable : ∃ step y, 0 < step ∧ (p.relaxed k step).Feasible y
  · obtain ⟨step, y, pos, reached⟩ := reachable
    obtain ⟨slope, small, positive, rate⟩ := exists_slope_relaxed h feasible priced inside pos reached
    refine ⟨small / 2, half_pos positive, fun step pos le y prices' reached priced' => ?_⟩
    obtain ⟨once, bound⟩ := rate step pos (by linarith)
    obtain ⟨twice, -⟩ := rate (step + step) (by linarith) (by linarith)
    exact leastPrice_of_rate feasible inside pos bound once twice reached priced'
  · refine ⟨1, one_pos, fun step pos _ y _ reached _ => ?_⟩
    exact absurd ⟨step, y, pos, reached⟩ reachable

end WellFormed

end Simplex.StandardForm

end Allotment
