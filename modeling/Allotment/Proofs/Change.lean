import Allotment.Change

/-!
# What changes leave as they are

A change replaces numbers. Names, labels and relations stay, so that a changed program can be
compared with its base: `mismatch?` finds nothing.
-/

namespace Allotment
set_option autoImplicit false

/-- A computation in two steps that succeeds goes through a result of its first step. -/
theorem exists_of_bind_ok {ε β γ : Type} {x : Except ε β} {f : β → Except ε γ} {c : γ}
    (h : x >>= f = .ok c) : ∃ b, x = .ok b ∧ f b = .ok c := by
  cases x with
  | error e => cases h
  | ok b => exact ⟨b, rfl, h⟩

theorem map_modify_of_keeps {β γ : Type} {f : β → γ} {g : β → β} (keeps : ∀ b, f (g b) = f b)
    (l : List β) (i : Nat) : (l.modify i g).map f = l.map f := by
  induction l generalizing i with
  | nil => cases i <;> rfl
  | cons b l ih =>
    cases i with
    | zero => simp [keeps]
    | succ i => simp [ih]

namespace Program

variable {α : Type} {p q : Program α}

theorem length_names : p.names.length = p.vars.length := List.length_map _

theorem length_labels : p.labels.length = p.constraints.length := List.length_map _

/-- **Programs of the same shape**: with the same names, labels and relations, in order. -/
structure SameShape (p q : Program α) : Prop where
  names : p.names = q.names
  labels : p.labels = q.labels
  relations : p.relations = q.relations

theorem SameShape.refl (p : Program α) : p.SameShape p := ⟨rfl, rfl, rfl⟩

theorem SameShape.symm (h : p.SameShape q) : q.SameShape p :=
  ⟨h.names.symm, h.labels.symm, h.relations.symm⟩

theorem SameShape.trans {r : Program α} (h : p.SameShape q) (h' : q.SameShape r) : p.SameShape r :=
  ⟨h.names.trans h'.names, h.labels.trans h'.labels, h.relations.trans h'.relations⟩

theorem mismatch?_eq_none_iff : p.mismatch? q = none ↔ p.SameShape q := by
  unfold mismatch?
  constructor
  · intro none
    split at none
    · cases none
    split at none
    · cases none
    split at none
    · cases none
    next names labels relations =>
    exact ⟨Decidable.not_not.mp names, Decidable.not_not.mp labels, Decidable.not_not.mp relations⟩
  · rintro ⟨names, labels, relations⟩
    simp [names, labels, relations]

theorem sameShape_modifyConstraint {f : Constraint α → Constraint α} (i : Nat)
    (keeps : ∀ c, (f c).label = c.label ∧ (f c).relation = c.relation) :
    p.SameShape (p.modifyConstraint i f) where
  names := rfl
  labels := (map_modify_of_keeps (fun c => (keeps c).1) p.constraints i).symm
  relations := (map_modify_of_keeps (fun c => (keeps c).2) p.constraints i).symm

theorem sameShape_modifyVariable {f : Variable α → Variable α} (j : Nat)
    (keeps : ∀ v, (f v).name = v.name) : p.SameShape (p.modifyVariable j f) where
  names := (map_modify_of_keeps keeps p.vars j).symm
  labels := rfl
  relations := rfl

/-- A constraint is found by its label. -/
theorem constraintAt_eq_ok_iff {label : String} {i : Nat} :
    p.constraintAt label = .ok i ↔ p.constraintIndex? label = some i := by
  unfold constraintAt
  cases p.constraintIndex? label with
  | none => simp
  | some k => simp

variable [Scalar α]

/-- **A change keeps the shape of the program.** -/
theorem sameShape_apply {change : Change α} (h : change.apply p = .ok q) : p.SameShape q := by
  cases change with
  | objectiveCoefficient name value =>
    obtain ⟨j, -, applied⟩ := exists_of_bind_ok h
    cases applied
    exact ⟨rfl, rfl, rfl⟩
  | scaleObjectiveCoefficient name factor =>
    obtain ⟨j, -, applied⟩ := exists_of_bind_ok h
    cases applied
    exact ⟨rfl, rfl, rfl⟩
  | coefficient label name value =>
    obtain ⟨j, -, h⟩ := exists_of_bind_ok h
    obtain ⟨i, -, applied⟩ := exists_of_bind_ok h
    cases applied
    exact sameShape_modifyConstraint i fun _ => ⟨rfl, rfl⟩
  | scaleConstraint label factor =>
    obtain ⟨i, -, applied⟩ := exists_of_bind_ok h
    cases applied
    exact sameShape_modifyConstraint i fun _ => ⟨rfl, rfl⟩
  | limit label value =>
    obtain ⟨i, -, applied⟩ := exists_of_bind_ok h
    cases applied
    exact sameShape_modifyConstraint i fun _ => ⟨rfl, rfl⟩
  | scaleLimit label factor =>
    obtain ⟨i, -, applied⟩ := exists_of_bind_ok h
    cases applied
    exact sameShape_modifyConstraint i fun _ => ⟨rfl, rfl⟩
  | shiftLimit label delta =>
    obtain ⟨i, -, applied⟩ := exists_of_bind_ok h
    cases applied
    exact sameShape_modifyConstraint i fun _ => ⟨rfl, rfl⟩
  | upperBound name value =>
    obtain ⟨j, -, applied⟩ := exists_of_bind_ok h
    cases applied
    exact sameShape_modifyVariable j fun _ => rfl

theorem sameShape_applyAll {changes : List (Change α)} (h : p.applyAll changes = .ok q) :
    p.SameShape q := by
  induction changes generalizing p with
  | nil =>
    cases h
    exact .refl _
  | cons change changes ih =>
    unfold applyAll at h
    rw [List.foldlM_cons] at h
    obtain ⟨r, first, rest⟩ := exists_of_bind_ok h
    exact (sameShape_apply first).trans (ih rest)

theorem checked_eq_ok_iff : p.checked = .ok q ↔ p.flaw? = none ∧ p = q := by
  unfold checked
  cases p.flaw? with
  | none => simp
  | some flaw => simp

/-- **A changed program has the shape of its base**, and no flaw. -/
theorem sameShape_changed {changes : List (Change α)} (h : p.changed changes = .ok q) :
    p.SameShape q ∧ q.flaw? = none := by
  obtain ⟨r, applied, checked⟩ := exists_of_bind_ok h
  obtain ⟨none, rfl⟩ := checked_eq_ok_iff.mp checked
  exact ⟨sameShape_applyAll applied, none⟩

end Program

end Allotment
