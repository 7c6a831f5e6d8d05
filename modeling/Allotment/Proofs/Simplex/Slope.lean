import Allotment.Proofs.Simplex.Maximum

/-!
# How the maximum moves with the right-hand sides

Let the right-hand sides of a standard form move in one direction. What the maximum gains per step is
greatest for small steps, and it is the same for all steps that are small enough (`exists_slope`).
The rates that are reached are themselves the gains of a standard form with one variable more, the
reciprocal of the step: a point over its step reaches them, and so does every mixture of such a point
with the one that the maximum starts from. So they have a maximum of their own, at a step or, where
the new variable is zero, at every step.
-/

namespace Allotment
set_option autoImplicit false

namespace Relation

/-- A relation is decided by the difference of the two sides. -/
theorem holds_congr (relation : Relation) {a b a' b' : ℚ} (same : a - b = a' - b') :
    relation.Holds a b ↔ relation.Holds a' b' := by
  cases relation with
  | atMost =>
    simp only [Holds]
    constructor <;> intro le <;> linarith
  | atLeast =>
    simp only [Holds]
    constructor <;> intro le <;> linarith
  | equal =>
    simp only [Holds]
    constructor <;> intro eq <;> linarith

variable {relation : Relation} {a b a' b' c : ℚ}

theorem Holds.add (h : relation.Holds a b) (h' : relation.Holds a' b') : relation.Holds (a + a') (b + b') := by
  cases relation with
  | atMost => exact add_le_add h h'
  | atLeast => exact add_le_add h h'
  | equal => exact congrArg₂ (· + ·) h h'

theorem Holds.mul (h : relation.Holds a b) (nonneg : 0 ≤ c) : relation.Holds (c * a) (c * b) := by
  cases relation with
  | atMost => exact mul_le_mul_of_nonneg_left h nonneg
  | atLeast => exact mul_le_mul_of_nonneg_left h nonneg
  | equal => exact congrArg (c * ·) h

end Relation

namespace Simplex.StandardForm

/-- **The standard form of the rates** at which a value is passed when the right-hand sides move by a
shift per step: its last variable is the reciprocal of the step. -/
def rates (f : StandardForm ℚ) (value : ℚ) (shift : ℕ → ℚ) : StandardForm ℚ where
  lower := f.lower ++ [0]
  rows := f.rows.mapIdx fun i r => .normalize (r.coefficients ++ [-r.rhs]) r.relation (shift i)
  gains := f.gains ++ [-value]

/-- The point of the rates that a point reached by a step stands for. -/
def perStep (f : StandardForm ℚ) (step : ℚ) (z : ℕ → ℚ) : ℕ → ℚ :=
  Function.update (step⁻¹ • z) f.variableCount step⁻¹

variable {f : StandardForm ℚ} {value step : ℚ} {shift z w base : ℕ → ℚ}

theorem variableCount_rates : (f.rates value shift).variableCount = f.variableCount + 1 := by
  simp [variableCount, rates]

theorem perStep_of_lt {j : ℕ} (hj : j < f.variableCount) : f.perStep step z j = step⁻¹ * z j :=
  Function.update_of_ne hj.ne _ _

theorem perStep_last : f.perStep step z f.variableCount = step⁻¹ := Function.update_self _ _ _

variable (proper : f.Proper)
include proper

theorem rates_proper : (f.rates value shift).Proper where
  rows r hr := by
    obtain ⟨i, hi⟩ := List.getElem?_of_mem hr
    rw [rates, List.getElem?_mapIdx, Option.map_eq_some_iff] at hi
    obtain ⟨q, hq, rfl⟩ := hi
    rw [StandardRow.length_normalize, List.length_append, proper.rows q (List.mem_of_getElem? hq),
      variableCount_rates]
    rfl
  rhs r hr := by
    obtain ⟨i, hi⟩ := List.getElem?_of_mem hr
    rw [rates, List.getElem?_mapIdx, Option.map_eq_some_iff] at hi
    obtain ⟨q, -, rfl⟩ := hi
    exact StandardRow.rhs_normalize_nonneg _ _ _
  gains := by
    rw [rates, List.length_append, proper.gains, variableCount, variableCount, List.length_append]
    rfl

theorem weigh_gains_rates (w : ℕ → ℚ) : weigh (f.rates value shift).gains w =
    weigh f.gains w - value * w f.variableCount := by
  rw [rates, weigh_concat, proper.gains]
  ring

/-- **What it is to reach rates.** -/
theorem reaches_rates_iff : (f.rates value shift).Reaches 0 w ↔
    ((∀ j < f.variableCount, 0 ≤ w j) ∧ 0 ≤ w f.variableCount) ∧
      ∀ (i : ℕ) (r : StandardRow ℚ), f.rows[i]? = some r →
        r.relation.Holds (weigh r.coefficients w) (r.rhs * w f.variableCount + shift i) := by
  have row : ∀ (i : ℕ) (r : StandardRow ℚ), f.rows[i]? = some r →
      ((StandardRow.normalize (r.coefficients ++ [-r.rhs]) r.relation (shift i)).relation.Holds
        (weigh (StandardRow.normalize (r.coefficients ++ [-r.rhs]) r.relation (shift i)).coefficients w)
        ((StandardRow.normalize (r.coefficients ++ [-r.rhs]) r.relation (shift i)).rhs + 0) ↔
      r.relation.Holds (weigh r.coefficients w) (r.rhs * w f.variableCount + shift i)) := by
    intro i r hr
    have iff := StandardRow.normalize_holds_iff (r.coefficients ++ [-r.rhs]) r.relation (shift i) w 0
    rw [mul_zero] at iff
    rw [iff, weigh_concat, proper.rows r (List.mem_of_getElem? hr)]
    refine r.relation.holds_congr ?_
    ring
  constructor
  · rintro ⟨nonneg, meets⟩
    rw [variableCount_rates] at nonneg
    refine ⟨⟨fun j hj => nonneg j (by omega), nonneg _ (by omega)⟩, fun i r hr => (row i r hr).mp ?_⟩
    exact meets i _ (by rw [rates, List.getElem?_mapIdx, hr]; rfl)
  · rintro ⟨⟨nonneg, last⟩, holds⟩
    refine ⟨fun j hj => ?_, fun i q hq => ?_⟩
    · rw [variableCount_rates] at hj
      obtain before | rfl := Nat.lt_succ_iff_lt_or_eq.mp hj
      · exact nonneg j before
      · exact last
    · rw [rates, List.getElem?_mapIdx, Option.map_eq_some_iff] at hq
      obtain ⟨r, hr, rfl⟩ := hq
      exact (row i r hr).mpr (holds i r hr)

/-- A point reached by a step reaches its rates. -/
theorem Reaches.perStep (pos : 0 < step) (reaches : f.Reaches (step • shift) z) :
    (f.rates value shift).Reaches 0 (f.perStep step z) := by
  have inverse : 0 ≤ step⁻¹ := (inv_pos.mpr pos).le
  rw [reaches_rates_iff proper, perStep_last]
  refine ⟨⟨fun j hj => ?_, inverse⟩, fun i r hr => ?_⟩
  · rw [perStep_of_lt hj]
    exact mul_nonneg inverse (reaches.nonneg j hj)
  · have weighs : weigh r.coefficients (f.perStep step z) = step⁻¹ * weigh r.coefficients z := by
      rw [← weigh_smul]
      refine weigh_congr fun j hj => perStep_of_lt ?_
      rwa [proper.rows r (List.mem_of_getElem? hr)] at hj
    have holds := (reaches.meets i r hr).mul inverse
    rw [weighs]
    refine (r.relation.holds_congr ?_).mp holds
    rw [Pi.smul_apply, smul_eq_mul]
    field_simp

theorem weigh_gains_perStep : weigh (f.rates value shift).gains (f.perStep step z) =
    step⁻¹ * (weigh f.gains z - value) := by
  have weighs : weigh f.gains (f.perStep step z) = step⁻¹ * weigh f.gains z := by
    rw [← weigh_smul]
    exact weigh_congr fun j hj => perStep_of_lt (proper.gains ▸ hj)
  rw [weigh_gains_rates proper, weighs, perStep_last]
  ring

omit proper in
theorem weigh_mix (row : List ℚ) (c d : ℚ) (z w : ℕ → ℚ) :
    weigh row (c • z + d • w) = c * weigh row z + d * weigh row w := by
  rw [weigh_add, weigh_smul, weigh_smul]

omit proper in
/-- Steps for which a point of the rates can be mixed with the start. -/
theorem step_mul_le_one (nonneg : 0 ≤ w f.variableCount) (pos : 0 < step)
    (small : step ≤ (w f.variableCount + 1)⁻¹) : step * w f.variableCount ≤ 1 := by
  have positive : 0 < w f.variableCount + 1 := add_pos_of_nonneg_of_pos nonneg one_pos
  have whole := mul_le_mul_of_nonneg_right small positive.le
  rw [inv_mul_cancel₀ positive.ne'] at whole
  linarith

/-- **Rates that are reached are reached by every small step**, from a point without a shift. -/
theorem Reaches.mix (start : f.Reaches 0 base) (reaches : (f.rates value shift).Reaches 0 w) (pos : 0 < step)
    (small : step ≤ (w f.variableCount + 1)⁻¹) :
    f.Reaches (step • shift) (step • w + (1 - step * w f.variableCount) • base) := by
  obtain ⟨⟨nonneg, last⟩, holds⟩ := (reaches_rates_iff proper).mp reaches
  have rest : 0 ≤ 1 - step * w f.variableCount := sub_nonneg.mpr (step_mul_le_one last pos small)
  refine ⟨fun j hj => ?_, fun i r hr => ?_⟩
  · exact add_nonneg (mul_nonneg pos.le (nonneg j hj)) (mul_nonneg rest (start.nonneg j hj))
  · have mixed := ((holds i r hr).mul pos.le).add ((start.meets i r hr).mul rest)
    rw [weigh_mix]
    refine (r.relation.holds_congr ?_).mp mixed
    rw [Pi.smul_apply, Pi.zero_apply, smul_eq_mul]
    ring

/-- **The maximum moves at one rate for all small steps.** -/
theorem exists_slope (start : f.Reaches 0 base) {bound : ℚ}
    (bounded : ∀ step, 0 < step → ∀ z, f.Reaches (step • shift) z →
      weigh f.gains z ≤ weigh f.gains base + step * bound)
    (pos : 0 < step) (reaches : f.Reaches (step • shift) z) :
    ∃ slope small, 0 < small ∧ ∀ step, 0 < step → step ≤ small →
      (∃ z, f.Reaches (step • shift) z ∧ weigh f.gains z = weigh f.gains base + step * slope) ∧
      ∀ z, f.Reaches (step • shift) z → weigh f.gains z ≤ weigh f.gains base + step * slope := by
  have gains : ∀ (step : ℚ) (w : ℕ → ℚ),
      weigh f.gains (step • w + (1 - step * w f.variableCount) • base) = weigh f.gains base +
        step * weigh (f.rates (weigh f.gains base) shift).gains w := by
    intro step w
    rw [weigh_mix, weigh_gains_rates proper]
    ring
  have positive : ∀ w, (f.rates (weigh f.gains base) shift).Reaches 0 w → 0 < (w f.variableCount + 1)⁻¹ :=
    fun w reached => inv_pos.mpr
      (add_pos_of_nonneg_of_pos ((reaches_rates_iff proper).mp reached).1.2 one_pos)
  have rated : ∀ w, (f.rates (weigh f.gains base) shift).Reaches 0 w →
      weigh (f.rates (weigh f.gains base) shift).gains w ≤ bound := by
    intro w reached
    have pos := positive w reached
    have below := bounded _ pos _ (start.mix proper reached pos le_rfl)
    rw [gains] at below
    exact le_of_mul_le_mul_left (le_of_add_le_add_left below) pos
  obtain ⟨best, reached, greatest⟩ :=
    exists_maximum (rates_proper proper) (reaches.perStep proper pos) rated
  refine ⟨weigh (f.rates (weigh f.gains base) shift).gains best, (best f.variableCount + 1)⁻¹,
    positive best reached, fun step pos small => ⟨?_, fun z reaches => ?_⟩⟩
  · exact ⟨_, start.mix proper reached pos small, gains step best⟩
  · have below := greatest _ (reaches.perStep proper pos)
    rw [weigh_gains_perStep proper, inv_mul_le_iff₀ pos] at below
    linarith

end Simplex.StandardForm

end Allotment
