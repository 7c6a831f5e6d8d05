import Allotment.Proofs.Change
import Allotment.Proofs.Region

/-!
# Lists of changes

What a list of changes makes of a program can be said without looking anything up on the way. The names
that are refused are those that the program itself does not have (`Change.unknown?`), and a change that
is not refused replaces the entries of a name, wherever these stand (`Change.effect`): one step keeps
the names and the widths, so the whole list is decided at its start (`Tabular.applyAll_eq`). Two lists
one after the other are then one list, refusals included (`changed_composes`).
-/

namespace Allotment
set_option autoImplicit false

/-- A list with the entries of one name changed; the names are listed beside it. -/
def updateNamed {β : Type} (names : List String) (name : String) (f : β → β) (l : List β) : List β :=
  List.zipWith (fun own b => if own = name then f b else b) names l

section Named

variable {β : Type} {names : List String} {name : String} {f : β → β} {l : List β}

theorem updateNamed_of_not_mem (absent : name ∉ names) (same : names.length = l.length) :
    updateNamed names name f l = l := by
  induction names generalizing l with
  | nil => exact (List.eq_nil_of_length_eq_zero same.symm).symm
  | cons own names ih =>
    obtain ⟨b, l, rfl⟩ := List.exists_cons_of_length_eq_add_one same.symm
    rw [List.mem_cons, not_or] at absent
    obtain ⟨other, absent⟩ := absent
    rw [updateNamed, List.zipWith_cons_cons, if_neg (Ne.symm other)]
    exact congrArg _ (ih absent (Nat.succ.inj same))

/-- **Where names do not repeat, the entry at the place of a name is that of the name.** -/
theorem modify_eq_updateNamed (nodup : names.Nodup) (same : names.length = l.length) {i : ℕ}
    (place : names.findIdx? (· == name) = some i) : l.modify i f = updateNamed names name f l := by
  induction names generalizing l i with
  | nil => cases place
  | cons own names ih =>
    obtain ⟨b, l, rfl⟩ := List.exists_cons_of_length_eq_add_one same.symm
    obtain ⟨fresh, nodup⟩ := List.nodup_cons.mp nodup
    rw [updateNamed, List.zipWith_cons_cons]
    by_cases here : own = name
    · subst here
      rw [List.findIdx?_cons, beq_self_eq_true] at place
      obtain rfl := Option.some.inj place
      rw [if_pos rfl]
      exact congrArg _ (updateNamed_of_not_mem fresh (Nat.succ.inj same)).symm
    · rw [List.findIdx?_cons, beq_eq_false_iff_ne.mpr here, if_neg Bool.false_ne_true,
        Option.map_eq_some_iff] at place
      obtain ⟨j, place, rfl⟩ := place
      rw [if_neg here]
      exact congrArg _ (ih nodup (Nat.succ.inj same) place)

theorem length_updateNamed (same : names.length = l.length) :
    (updateNamed names name f l).length = l.length := by
  rw [updateNamed, List.length_zipWith, same, min_self]

theorem updateNamed_congr {g : β → β} (agree : ∀ b ∈ l, f b = g b) :
    updateNamed names name f l = updateNamed names name g l := by
  apply List.ext_getElem?
  intro i
  rw [updateNamed, updateNamed, List.getElem?_zipWith, List.getElem?_zipWith]
  cases hb : l[i]? with
  | none => cases names[i]? <;> rfl
  | some b =>
    have same := agree b (List.mem_of_getElem? hb)
    cases names[i]? with
    | none => rfl
    | some own => simp only [same]

theorem mem_updateNamed {b : β} (mem : b ∈ updateNamed names name f l) : b ∈ l ∨ ∃ c ∈ l, b = f c := by
  obtain ⟨i, hi⟩ := List.getElem?_of_mem mem
  obtain ⟨own, c, -, hc, rfl⟩ := List.getElem?_zipWith_eq_some.mp hi
  have inside := List.mem_of_getElem? hc
  split
  · exact Or.inr ⟨c, inside, rfl⟩
  · exact Or.inl inside

/-- What is done at the place of a name, or the refusal of the name. -/
theorem bind_place {ε γ : Type} {cause : ε} {g : ℕ → Except ε γ} {outcome : Except ε γ}
    (known : ∀ i, names.findIdx? (· == name) = some i → g i = outcome) :
    (match names.findIdx? (· == name) with
      | some i => .ok i
      | none => .error cause) >>= g =
    (if name ∈ names then none else some cause).elim outcome .error := by
  split
  · next i found =>
    have mem : name ∈ names := by
      obtain ⟨inside, here, -⟩ := List.findIdx?_eq_some_iff_getElem.mp found
      exact beq_iff_eq.mp here ▸ List.getElem_mem inside
    rw [if_pos mem]
    exact known i found
  · next absent =>
    have missing : name ∉ names := fun mem => by
      simpa using List.findIdx?_eq_none_iff.mp absent name mem
    rw [if_neg missing]
    rfl

end Named

variable {α : Type}

namespace Program

/-- The refusal of a name that no variable has. -/
def unknownVariable? (p : Program α) (name : String) : Option (Flaw α) :=
  if name ∈ p.names then none else some (.unknownVariable .change name)

/-- The refusal of a label that no constraint has. -/
def unknownConstraint? (p : Program α) (label : String) : Option (Flaw α) :=
  if label ∈ p.labels then none else some (.unknownConstraint label)

/-- The program with the objective coefficient of a name changed. -/
def updateGain (p : Program α) (name : String) (f : α → α) : Program α :=
  { p with
    objective := { p.objective with
      coefficients := updateNamed p.names name f p.objective.coefficients } }

/-- The program with the variable of a name changed. -/
def updateVariable (p : Program α) (name : String) (f : Variable α → Variable α) : Program α :=
  { p with vars := updateNamed p.names name f p.vars }

/-- The program with the constraint of a label changed. -/
def updateConstraint (p : Program α) (label : String) (f : Constraint α → Constraint α) : Program α :=
  { p with constraints := updateNamed p.labels label f p.constraints }

end Program

namespace Change

/-- **The first name of a change that a program does not have**; of a variable and a constraint that of
the variable. -/
def unknown? (p : Program α) : Change α → Option (Flaw α)
  | objectiveCoefficient name _ => p.unknownVariable? name
  | scaleObjectiveCoefficient name _ => p.unknownVariable? name
  | coefficient label name _ => p.unknownVariable? name <|> p.unknownConstraint? label
  | scaleConstraint label _ => p.unknownConstraint? label
  | limit label _ => p.unknownConstraint? label
  | scaleLimit label _ => p.unknownConstraint? label
  | shiftLimit label _ => p.unknownConstraint? label
  | upperBound name _ => p.unknownVariable? name

/-- **What a change makes of a program**, by names. -/
def effect [Scalar α] (p : Program α) : Change α → Program α
  | objectiveCoefficient name value => p.updateGain name fun _ => value
  | scaleObjectiveCoefficient name factor => p.updateGain name (· * factor)
  | coefficient label name value => p.updateConstraint label fun c =>
      { c with coefficients := updateNamed p.names name (fun _ => value) c.coefficients }
  | scaleConstraint label factor => p.updateConstraint label fun c =>
      { c with coefficients := c.coefficients.map (· * factor) }
  | limit label value => p.updateConstraint label fun c => { c with limit := value }
  | scaleLimit label factor => p.updateConstraint label fun c => { c with limit := c.limit * factor }
  | shiftLimit label delta => p.updateConstraint label fun c => { c with limit := c.limit + delta }
  | upperBound name value => p.updateVariable name fun v => { v with upper := value }

end Change

namespace Program

/-- **Programs whose numbers are in their places**: no name and no label twice, and one coefficient per
variable everywhere. Changes keep this, whatever the numbers become. -/
structure Tabular (p : Program α) : Prop where
  names : p.names.Nodup
  labels : p.labels.Nodup
  objective : p.objective.coefficients.length = p.names.length
  rows : ∀ c ∈ p.constraints, c.coefficients.length = p.names.length

variable {p q : Program α} {name label : String}

/-! ## One change -/

theorem bind_variableAt {β : Type} {g : ℕ → Except (Flaw α) β} {outcome : Except (Flaw α) β}
    (known : ∀ j, p.names.findIdx? (· == name) = some j → g j = outcome) :
    p.variableAt name >>= g = (p.unknownVariable? name).elim outcome .error := by
  have place : p.variableIndex? name = p.names.findIdx? (· == name) := by
    rw [names, List.findIdx?_map]
    rfl
  rw [variableAt, place]
  exact bind_place known

theorem bind_constraintAt {β : Type} {g : ℕ → Except (Flaw α) β} {outcome : Except (Flaw α) β}
    (known : ∀ i, p.labels.findIdx? (· == label) = some i → g i = outcome) :
    p.constraintAt label >>= g = (p.unknownConstraint? label).elim outcome .error := by
  have place : p.constraintIndex? label = p.labels.findIdx? (· == label) := by
    rw [labels, List.findIdx?_map]
    rfl
  rw [constraintAt, place]
  exact bind_place known

theorem width_updateConstraint {f : Constraint α → Constraint α} {c : Constraint α}
    (hc : c ∈ (p.updateConstraint label f).constraints)
    (keeps : ∀ d ∈ p.constraints, (f d).coefficients.length = d.coefficients.length) :
    ∃ d ∈ p.constraints, c.coefficients.length = d.coefficients.length := by
  obtain same | ⟨d, hd, rfl⟩ := mem_updateNamed hc
  · exact ⟨c, same, rfl⟩
  · exact ⟨d, hd, keeps d hd⟩

/-- What is refused depends on the names only. -/
theorem SameShape.unknown?_eq (shape : p.SameShape q) (change : Change α) :
    change.unknown? q = change.unknown? p := by
  have ofVariable : ∀ name, q.unknownVariable? name = p.unknownVariable? name := fun name => by
    rw [unknownVariable?, unknownVariable?, shape.names]
  have ofConstraint : ∀ label, q.unknownConstraint? label = p.unknownConstraint? label := fun label => by
    rw [unknownConstraint?, unknownConstraint?, shape.labels]
  cases change <;> simp only [Change.unknown?, ofVariable, ofConstraint]

variable [Scalar α]

theorem WellFormed.tabular (h : p.WellFormed) : p.Tabular where
  names := h.names
  labels := h.labels
  objective := h.objective.length.trans length_names.symm
  rows c hc := (h.rows c hc).length.trans length_names.symm

namespace Tabular

variable (tabular : p.Tabular)
include tabular

/-- **One change**: the refusal of a name, or the entries of the name replaced. -/
theorem apply_eq (change : Change α) :
    change.apply p = (change.unknown? p).elim (.ok (change.effect p)) .error := by
  cases change with
  | objectiveCoefficient name value =>
    refine bind_variableAt fun j place => ?_
    rw [modifyGain, modify_eq_updateNamed tabular.names tabular.objective.symm place]
    rfl
  | scaleObjectiveCoefficient name factor =>
    refine bind_variableAt fun j place => ?_
    rw [modifyGain, modify_eq_updateNamed tabular.names tabular.objective.symm place]
    rfl
  | coefficient label name value =>
    have inner : ∀ j, p.names.findIdx? (· == name) = some j →
        (do
          let i ← p.constraintAt label
          return p.modifyConstraint i fun c =>
            { c with coefficients := c.coefficients.modify j fun _ => value }) =
          (p.unknownConstraint? label).elim
            (.ok (Change.effect p (.coefficient label name value))) .error := by
      intro j place
      refine bind_constraintAt fun i place' => ?_
      rw [modifyConstraint, modify_eq_updateNamed tabular.labels length_labels place',
        updateNamed_congr fun c hc => congrArg (fun row => { c with coefficients := row })
          (modify_eq_updateNamed tabular.names (tabular.rows c hc).symm place)]
      rfl
    refine (bind_variableAt inner).trans ?_
    rw [Change.unknown?]
    cases p.unknownVariable? name <;> rfl
  | scaleConstraint label factor =>
    refine bind_constraintAt fun i place => ?_
    rw [modifyConstraint, modify_eq_updateNamed tabular.labels length_labels place]
    rfl
  | limit label value =>
    refine bind_constraintAt fun i place => ?_
    rw [modifyLimit, modifyConstraint, modify_eq_updateNamed tabular.labels length_labels place]
    rfl
  | scaleLimit label factor =>
    refine bind_constraintAt fun i place => ?_
    rw [modifyLimit, modifyConstraint, modify_eq_updateNamed tabular.labels length_labels place]
    rfl
  | shiftLimit label delta =>
    refine bind_constraintAt fun i place => ?_
    rw [modifyLimit, modifyConstraint, modify_eq_updateNamed tabular.labels length_labels place]
    rfl
  | upperBound name value =>
    refine bind_variableAt fun j place => ?_
    rw [modifyVariable, modify_eq_updateNamed tabular.names length_names place]
    rfl

/-- A change keeps the widths of the rows. -/
theorem width_effect (change : Change α) :
    (change.effect p).objective.coefficients.length = p.objective.coefficients.length ∧
      ∀ c ∈ (change.effect p).constraints,
        ∃ d ∈ p.constraints, c.coefficients.length = d.coefficients.length := by
  cases change with
  | objectiveCoefficient name value =>
    exact ⟨length_updateNamed tabular.objective.symm, fun c hc => ⟨c, hc, rfl⟩⟩
  | scaleObjectiveCoefficient name factor =>
    exact ⟨length_updateNamed tabular.objective.symm, fun c hc => ⟨c, hc, rfl⟩⟩
  | coefficient label name value =>
    exact ⟨rfl, fun c hc => width_updateConstraint hc fun d hd =>
      length_updateNamed (tabular.rows d hd).symm⟩
  | scaleConstraint label factor =>
    exact ⟨rfl, fun c hc => width_updateConstraint hc fun d _ => List.length_map _⟩
  | limit label value => exact ⟨rfl, fun c hc => width_updateConstraint hc fun d _ => rfl⟩
  | scaleLimit label factor => exact ⟨rfl, fun c hc => width_updateConstraint hc fun d _ => rfl⟩
  | shiftLimit label delta => exact ⟨rfl, fun c hc => width_updateConstraint hc fun d _ => rfl⟩
  | upperBound name value => exact ⟨rfl, fun c hc => ⟨c, hc, rfl⟩⟩

/-- **A change that is not refused keeps the shape of the table.** -/
theorem step {change : Change α} (known : change.unknown? p = none) :
    p.SameShape (change.effect p) ∧ (change.effect p).Tabular := by
  have applied : change.apply p = .ok (change.effect p) := by
    rw [tabular.apply_eq, known]
    rfl
  have shape := sameShape_apply applied
  obtain ⟨objective, rows⟩ := tabular.width_effect change
  refine ⟨shape, shape.names ▸ tabular.names, shape.labels ▸ tabular.labels, ?_, fun c hc => ?_⟩
  · rw [objective, ← shape.names]
    exact tabular.objective
  · obtain ⟨d, hd, width⟩ := rows c hc
    rw [width, ← shape.names]
    exact tabular.rows d hd

end Tabular

/-! ## Lists of changes -/

/-- **A list of changes**: the first refusal of a name, or all of them in order. -/
theorem Tabular.applyAll_eq (tabular : p.Tabular) (changes : List (Change α)) :
    p.applyAll changes = (changes.findSome? (·.unknown? p)).elim
      (.ok (changes.foldl Change.effect p)) .error := by
  induction changes generalizing p with
  | nil => rfl
  | cons change changes ih =>
    rw [applyAll, List.foldlM_cons, tabular.apply_eq, List.findSome?_cons]
    cases known : change.unknown? p with
    | some flaw => rfl
    | none =>
      obtain ⟨shape, tabular'⟩ := tabular.step known
      have rest := ih tabular'
      simp only [shape.unknown?_eq] at rest
      exact rest

theorem applyAll_append (changes more : List (Change α)) :
    p.applyAll (changes ++ more) = p.applyAll changes >>= fun q => q.applyAll more :=
  List.foldlM_append

/-- **Lists of changes compose**, for every valid program and all lists, whatever they change and to which
values. If the program does not have some name, the list is refused for the first such name, of a
variable and a constraint in one change that of the variable. Otherwise the result is the program
with all changes made in order, if that has no flaw, and its first flaw else. And changing a changed
program is changing the program by both lists, refusals included. -/
theorem changed_composes (p : Program α) (valid : p.flaw? = none) (changes more : List (Change α)) :
    (∀ flaw, changes.findSome? (·.unknown? p) = some flaw → p.changed changes = .error flaw) ∧
    (changes.findSome? (·.unknown? p) = none →
      p.changed changes = (changes.foldl Change.effect p).checked) ∧
    ∀ q, p.changed changes = .ok q → p.changed (changes ++ more) = q.changed more := by
  have tabular := (p.flaw?_eq_none_iff.mp valid).tabular
  have applied := tabular.applyAll_eq changes
  refine ⟨fun flaw unknown => ?_, fun known => ?_, fun q ok => ?_⟩
  · rw [changed, applied, unknown]
    rfl
  · rw [changed, applied, known]
    rfl
  · obtain ⟨r, first, checked⟩ := exists_of_bind_ok ok
    obtain ⟨-, rfl⟩ := checked_eq_ok_iff.mp checked
    rw [changed, applyAll_append, first]
    rfl

/-- Changes of the sample, two of them of one limit. -/
def sampleChanges : List (Change ℚ) := [.scaleLimit "together" 2, .coefficient "gap" "y" (-2),
  .shiftLimit "together" (-1), .upperBound "x" none]

/-- Changes that name a variable and, in the same change and later, a constraint that the sample does not
have. -/
def strayChanges : List (Change ℚ) := [.limit "together" (-1), .coefficient "lost" "z" 1,
  .scaleConstraint "lost" 2]

theorem changed_composes_sample :
    (sample.flaw? = none ∧ sampleChanges.findSome? (·.unknown? sample) = none ∧
      strayChanges.findSome? (·.unknown? sample) = some (.unknownVariable .change "z") ∧
      sample.changed sampleChanges = .ok (sampleChanges.foldl Change.effect sample)) ∧
    sample.changed strayChanges = .error (.unknownVariable .change "z") ∧
    sample.changed sampleChanges = (sampleChanges.foldl Change.effect sample).checked ∧
    sample.changed (sampleChanges ++ strayChanges) =
      (sampleChanges.foldl Change.effect sample).changed strayChanges := by
  have known : sampleChanges.findSome? (·.unknown? sample) = none := by decide
  have stray : strayChanges.findSome? (·.unknown? sample) =
      some (.unknownVariable .change "z") := by decide
  have unflawed : (sampleChanges.foldl Change.effect sample).flaw? = none := by decide +kernel
  obtain ⟨-, made, compose⟩ := changed_composes sample flaw?_sample sampleChanges strayChanges
  have ok : sample.changed sampleChanges = .ok (sampleChanges.foldl Change.effect sample) :=
    (made known).trans (checked_eq_ok_iff.mpr ⟨unflawed, rfl⟩)
  exact ⟨⟨flaw?_sample, known, stray, ok⟩,
    (changed_composes sample flaw?_sample strayChanges []).1 _ stray, made known, compose _ ok⟩

end Program

end Allotment
