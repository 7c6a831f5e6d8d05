import Allotment.Proofs.ChangeTargets
import Allotment.Proofs.ExactValue
import Allotment.Ready.Production

/-!
# A plan changed, and a plan made anew

A question about a production plan can be answered in two ways: by changes of the finished program, or by
moving the parameters of the plan and stating the program again. Both fill in one table
(`Production.tableWith`), of which a change rewrites a cell and a parameter is a cell, so that they come to
the same program (`changes_restate`). A question of zero percent makes no change, and a parameter times
one is that parameter; of a question about no workers the most that can be seen afterwards is the sign of
a limit that is zero, which a comparison does not see (`Program.Alike`).
-/

namespace Allotment
set_option autoImplicit false

variable {α : Type} [Scalar α]

/-! ## Programs up to `Same` limits -/

/-- The same constraint, up to `Same` limits. -/
structure Constraint.Alike (c d : Constraint α) : Prop where
  label : c.label = d.label
  coefficients : c.coefficients = d.coefficients
  relation : c.relation = d.relation
  limit : Same c.limit d.limit

namespace Program

/-- **The same program**, up to `Same` limits. -/
structure Alike (p q : Program α) : Prop where
  vars : p.vars = q.vars
  objective : p.objective = q.objective
  constraints : List.Forall₂ Constraint.Alike p.constraints q.constraints

/-- **The same result**: programs that are alike, or one and the same flaw. -/
inductive SameResult : Except (Flaw α) (Program α) → Except (Flaw α) (Program α) → Prop where
  | ok {p q : Program α} (alike : p.Alike q) : SameResult (.ok p) (.ok q)
  | error (flaw : Flaw α) : SameResult (.error flaw) (.error flaw)

section Laws

variable [NeutralUnits α]

theorem constraintsFlaw?_congr (names seen : List String) {cs ds : List (Constraint α)}
    (alike : List.Forall₂ Constraint.Alike cs ds) :
    constraintsFlaw? names seen cs = constraintsFlaw? names seen ds := by
  induction alike generalizing seen with
  | nil => rfl
  | cons first _ ih =>
    obtain ⟨label, coefficients, -, limit⟩ := first
    rw [constraintsFlaw?, constraintsFlaw?, label, coefficients, NeutralUnits.isFinite_congr limit, ih]

/-- **A check does not tell programs apart that are alike.** -/
theorem Alike.checked {p q : Program α} (h : p.Alike q) : SameResult p.checked q.checked := by
  have same : p.flaw? = q.flaw? := by
    rw [flaw?, flaw?, names, names, h.vars, h.objective, constraintsFlaw?_congr _ _ h.constraints]
  rw [Program.checked, Program.checked, same]
  cases q.flaw? with
  | none => exact .ok h
  | some flaw => exact .error flaw

end Laws

/-- Over the rationals the same result is an equal one. -/
theorem SameResult.eq {a b : Except (Flaw ℚ) (Program ℚ)} (h : SameResult a b) : a = b := by
  cases h with
  | error flaw => rfl
  | @ok p q alike =>
    obtain ⟨vars, objective, constraints⟩ := alike
    have same : p.constraints = q.constraints := by
      refine List.forall₂_eq_eq_eq ▸ constraints.imp fun c d h => ?_
      exact Constraint.ext h.label h.coefficients h.relation ((same_rat _ _).mp h.limit)
    rw [Program.ext vars objective same]

end Program

namespace Ready

namespace Production

/-! ## The table of a plan -/

/-- **The table of a plan**, with a limit on labor that is given. -/
def tableWith (m : Production α) (laborLimit : α) : Program α where
  vars := [phones, tablets].map fun name => { name, lower := 0, upper := none }
  objective := { sense := .maximize, coefficients := [m.phoneProfit, m.tabletProfit] }
  constraints := [
    { label := laborHoursLabel, coefficients := [m.phoneHours, m.tabletHours]
      relation := .atMost, limit := laborLimit },
    { label := materialBudgetLabel, coefficients := [m.phoneMaterial, m.tabletMaterial]
      relation := .atMost, limit := m.materialBudget },
    { label := storageSpaceLabel, coefficients := [m.phoneSpace, m.tabletSpace]
      relation := .atMost, limit := m.storageSpace }]

/-- A phone and a tablet each have the number given for them. -/
theorem resolve_both (place : Place) (a b : α) :
    resolve [phones, tablets] place (.ofList [(phones, a), (tablets, b)]) = .ok [a, b] := by
  have order : phones < tablets := by decide
  have entries : (NameMap.ofList [(phones, a), (tablets, b)]).entries =
      [(phones, a), (tablets, b)] := by
    simp [NameMap.ofList, NameMap.insert, NameMap.insertEntry, NameMap.empty, order, order.not_gt]
  simp [resolve, NameMap.names, NameMap.find?, entries, order.ne]

/-- **The program of a plan is its table**, checked. -/
theorem program_eq (m : Production α) : m.program = (m.tableWith m.laborHours).checked := by
  have names : m.draft.names = [phones, tablets] := rfl
  have unique : firstRepeated? [] [phones, tablets] = none := by decide
  have objective : resolve [phones, tablets] .objective m.draft.objective.coefficients =
      .ok [m.phoneProfit, m.tabletProfit] := resolve_both _ _ _
  have row (label : String) (a b limit : α) : DraftConstraint.resolve [phones, tablets]
      ⟨label, .ofList [(phones, a), (tablets, b)], .atMost, limit⟩ =
        .ok ⟨label, [a, b], .atMost, limit⟩ := by
    rw [DraftConstraint.resolve, resolve_both]
    rfl
  have constraints : m.draft.constraints.mapM (·.resolve [phones, tablets]) =
      .ok (m.tableWith m.laborHours).constraints := by
    change List.mapM _ [_, _, _] = _
    rw [List.mapM_cons, List.mapM_cons, List.mapM_cons, row, row, row]
    rfl
  rw [program, Draft.program, names, unique]
  simp only [objective, constraints]
  rfl

theorem tabular_tableWith (m : Production α) (laborLimit : α) : (m.tableWith laborLimit).Tabular where
  names := by change [phones, tablets].Nodup; decide
  labels := by change [laborHoursLabel, materialBudgetLabel, storageSpaceLabel].Nodup; decide
  objective := rfl
  rows := by
    simp only [tableWith, List.forall_mem_cons]
    exact ⟨rfl, rfl, rfl, nofun⟩

end Production

namespace WhatIf

open Production

/-! ## Questions -/

theorem mem_unlessZero {amount : α} {change c : Change α} (h : c ∈ unlessZero amount change) :
    c = change := by
  unfold unlessZero at h
  split at h
  · cases h
  · exact List.mem_singleton.mp h

theorem unlessZero_eq_nil_iff {amount : α} {change : Change α} :
    unlessZero amount change = [] ↔ (amount == 0) = true := by
  unfold unlessZero
  split
  · next zero => exact iff_of_true rfl zero
  · next zero => exact iff_of_false nofun zero

/-- **A question makes no change when it is empty.** -/
theorem changes_eq_nil_iff (w : WhatIf α) (m : Production α) : w.changes m = [] ↔ w.isEmpty = true := by
  simp only [changes, isEmpty, List.append_eq_nil_iff, unlessZero_eq_nil_iff, Bool.and_eq_true]

/-- A plan has every name that a question about it changes something under. -/
theorem unknown?_changes (w : WhatIf α) (m : Production α) (laborLimit : α) :
    ∀ change ∈ w.changes m, change.unknown? (m.tableWith laborLimit) = none := by
  intro change mem
  simp only [changes, List.mem_append] at mem
  obtain ((material | workers) | phone) | tablet := mem
  · rw [mem_unlessZero material]
    rfl
  · rw [mem_unlessZero workers]
    rfl
  · rw [mem_unlessZero phone]
    rfl
  · rw [mem_unlessZero tablet]
    rfl

section Laws

variable [NeutralUnits α]

theorem factor_of_zero {percent : α} (zero : (percent == 0) = true) : factor percent = 1 :=
  NeutralUnits.one_add (NeutralUnits.percent zero)

/-- **A change by a percentage scales parameters of the plan**. Of zero percent no change is made, and as
the factor is one nothing is lost by that. -/
theorem foldl_scaling (m : Production α) (laborLimit : α) (change : α → Change α)
    (scaled : α → Production α) (percent : α)
    (scales : ∀ f, (change f).effect (m.tableWith laborLimit) = (scaled f).tableWith laborLimit)
    (same : scaled 1 = m) :
    (unlessZero percent (change (factor percent))).foldl Change.effect (m.tableWith laborLimit) =
      (scaled (factor percent)).tableWith laborLimit := by
  unfold unlessZero
  split
  · next zero =>
    rw [factor_of_zero zero, same]
    rfl
  · exact scales _

omit [NeutralUnits α] in
theorem foldl_laborLimit (m : Production α) (laborLimit amount value : α) :
    (unlessZero amount (.limit laborHoursLabel value)).foldl Change.effect (m.tableWith laborLimit) =
      m.tableWith (if amount == 0 then laborLimit else value) := by
  unfold unlessZero
  split <;> rfl

/-- **The changes move the parameters**, but for the limit on labor, which stays when no workers are
asked about. -/
theorem foldl_changes (w : WhatIf α) (m : Production α) (laborLimit : α) :
    (w.changes m).foldl Change.effect (m.tableWith laborLimit) = (w.moved m).tableWith
      (if w.workerChange == 0 then laborLimit else (w.moved m).laborHours) := by
  have material := foldl_scaling m laborLimit (.scaleConstraint materialBudgetLabel)
    (fun f => { m with phoneMaterial := m.phoneMaterial * f, tabletMaterial := m.tabletMaterial * f })
    w.materialCostChange (fun _ => rfl) (by simp only [NeutralUnits.mul_one])
  have phone (m : Production α) (laborLimit : α) :=
    foldl_scaling m laborLimit (.scaleObjectiveCoefficient phones)
      (fun f => { m with phoneProfit := m.phoneProfit * f }) w.phoneProfitChange (fun _ => rfl)
      (by simp only [NeutralUnits.mul_one])
  have tablet (m : Production α) (laborLimit : α) :=
    foldl_scaling m laborLimit (.scaleObjectiveCoefficient tablets)
      (fun f => { m with tabletProfit := m.tabletProfit * f }) w.tabletProfitChange (fun _ => rfl)
      (by simp only [NeutralUnits.mul_one])
  rw [changes, List.foldl_append, List.foldl_append, List.foldl_append, material, foldl_laborLimit,
    phone, tablet]
  rfl

/-- The limit on labor is the same whether or not a question about no workers is asked. -/
theorem same_laborLimit (w : WhatIf α) (m : Production α) :
    Same (w.moved m).laborHours (if w.workerChange == 0 then m.laborHours else (w.moved m).laborHours) := by
  split
  · next zero => exact NeutralUnits.mul_left (NeutralUnits.add_zero zero m.workers) m.hoursPerWorker
  · exact .inl rfl

theorem sameResult_changed (w : WhatIf α) {m : Production α} {p : Program α} (ok : m.program = .ok p) :
    Program.SameResult (w.moved m).program (p.changed (w.changes m)) := by
  obtain ⟨-, rfl⟩ := Program.checked_eq_ok_iff.mp (m.program_eq.symm.trans ok)
  have unrefused := List.findSome?_eq_none_iff.mpr (w.unknown?_changes m m.laborHours)
  rw [program_eq, (m.tabular_tableWith m.laborHours).changed_eq, unrefused, Option.elim_none, foldl_changes]
  refine Program.Alike.checked ⟨rfl, rfl, ?_⟩
  exact .cons ⟨rfl, rfl, rfl, w.same_laborLimit m⟩
    (.cons ⟨rfl, rfl, rfl, .inl rfl⟩ (.cons ⟨rfl, rfl, rfl, .inl rfl⟩ .nil))

end Laws

/-- **A question changes a plan as its parameters do**, for every plan that can be stated and every
question, in any number system where zero and one change nothing. The changes of the finished program and
the plan with moved parameters come to the same result, a flaw included; over the rationals the results are
equal. And there are no changes just when the question is empty. -/
theorem changes_restate :
    (∀ {α : Type} [Scalar α] [NeutralUnits α] (w : WhatIf α) (m : Production α) (p : Program α),
      m.program = .ok p → Program.SameResult (w.moved m).program (p.changed (w.changes m))) ∧
    (∀ (w : WhatIf ℚ) (m : Production ℚ) (p : Program ℚ),
      m.program = .ok p → p.changed (w.changes m) = (w.moved m).program) ∧
    ∀ {α : Type} [Scalar α] (w : WhatIf α) (m : Production α), w.changes m = [] ↔ w.isEmpty = true :=
  ⟨fun w _ _ ok => w.sameResult_changed ok, fun w _ _ ok => (w.sameResult_changed ok).eq.symm,
    changes_eq_nil_iff⟩

/-- Forty more workers, and material that costs a tenth more. -/
def hiring (α : Type) [Scalar α] : WhatIf α :=
  { unchanged with materialCostChange := 10.0, workerChange := 40.0 }

/-- A plan without workers, whose number is the negative zero. -/
def idle : Production Float := { Production.default with workers := -0.0 }

/-- Over the rationals a question is answered by an equal program. In binary64 the limit of a plan without
workers may lose its sign when the plan is stated anew, and nothing else changes. -/
theorem changes_restate_hiring :
    ((Production.default : Production ℚ).program = .ok (Production.default.tableWith 320) ∧
      (Production.default.tableWith 320).changed ((hiring ℚ).changes .default) =
        ((hiring ℚ).moved .default).program ∧
      ((hiring ℚ).moved .default).program = .ok
        (({ Production.default with phoneMaterial := 3300, tabletMaterial := 6600 } :
          Production ℚ).tableWith 640) ∧
      (hiring ℚ).changes .default ≠ []) ∧
    idle.program = .ok (idle.tableWith idle.laborHours) ∧
      Program.SameResult ((unchanged.moved idle).program)
        ((idle.tableWith idle.laborHours).changed (unchanged.changes idle)) ∧
      (unchanged.moved idle).program ≠
        (idle.tableWith idle.laborHours).changed (unchanged.changes idle) := by
  have default_ok : (Production.default : Production ℚ).program =
      .ok (Production.default.tableWith 320) := by
    rw [program_eq]
    decide +kernel
  have idle_ok : idle.program = .ok (idle.tableWith idle.laborHours) :=
    (program_eq idle).trans (Program.checked_eq_ok_iff.mpr
      ⟨Option.isNone_iff_eq_none.mp (by decide +kernel), rfl⟩)
  have restated := changes_restate.2.1 (hiring ℚ) .default _ default_ok
  refine ⟨⟨default_ok, restated, ?_, ?_⟩, idle_ok, changes_restate.1 unchanged idle _ idle_ok, fun same => ?_⟩
  · rw [program_eq]
    decide +kernel
  · rw [Ne, changes_restate.2.2]
    decide +kernel
  · rw [program_eq] at same
    have bits := congrArg (fun r => r.toOption.map fun p => p.constraints.map (·.limit.toBits)) same
    exact absurd bits (by decide +kernel)

end WhatIf
end Ready
end Allotment
