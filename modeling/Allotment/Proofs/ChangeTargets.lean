import Allotment.Comparison
import Allotment.Proofs.ChangeList
import Allotment.Proofs.Draft

/-!
# What changes touch

A program is a table of numbers, and `Program.read` looks one of them up by its entry. What a change does
is then said entry by entry: at those it is about (`Change.Targets`) it makes a new number of the old one
(`Change.rewrite`), and everything else it leaves alone. A program is known by its shape and the numbers
that are read from it (`Tabular.eq_of_read_eq`), so that two lists of changes that are not about the same
entry may be made in either order, and a flaw that a changed program has is at an entry that was changed
(`changes_touch_targets`).
-/

namespace Allotment
set_option autoImplicit false

/-! ## Lists with names beside them -/

/-- The entry of a name in a list; the names are listed beside it. -/
def lookupNamed {β : Type} (names : List String) (name : String) (l : List β) : Option β :=
  (names.zip l).lookup name

section Named

variable {β γ : Type} {names : List String} {name : String} {l l' : List β} {b : β}

theorem lookupNamed_cons (own : String) :
    lookupNamed (own :: names) name (b :: l) = if own = name then some b else lookupNamed names name l := by
  rw [lookupNamed, List.zip_cons_cons, List.lookup_cons]
  by_cases here : own = name
  · simp [here]
  · rw [if_neg here, beq_eq_false_iff_ne.mpr (Ne.symm here)]
    rfl

theorem mem_of_lookupNamed (h : lookupNamed names name l = some b) : (name, b) ∈ names.zip l := by
  induction names generalizing l with
  | nil => cases h
  | cons own names ih =>
    cases l with
    | nil => cases h
    | cons c l =>
      rw [lookupNamed_cons] at h
      rw [List.zip_cons_cons]
      split at h
      · next here =>
        subst here
        obtain rfl := Option.some.inj h
        exact List.mem_cons_self
      · exact List.mem_cons_of_mem _ (ih h)

/-- **Where names do not repeat, every entry is found by its name.** -/
theorem lookupNamed_of_mem (nodup : names.Nodup) (mem : (name, b) ∈ names.zip l) :
    lookupNamed names name l = some b := by
  induction names generalizing l with
  | nil => cases mem
  | cons own names ih =>
    cases l with
    | nil => cases mem
    | cons c l =>
      obtain ⟨fresh, nodup⟩ := List.nodup_cons.mp nodup
      rw [List.zip_cons_cons, List.mem_cons] at mem
      rw [lookupNamed_cons]
      obtain here | later := mem
      · obtain ⟨rfl, rfl⟩ := Prod.mk.inj here
        exact if_pos rfl
      · have other : own ≠ name := fun same => fresh (same ▸ (List.of_mem_zip later).1)
        rw [if_neg other]
        exact ih nodup later

/-- A list whose elements carry their names, beside these. -/
theorem lookupNamed_key {key : β → String} (nodup : (l.map key).Nodup) (hb : b ∈ l) :
    lookupNamed (l.map key) (key b) l = some b :=
  lookupNamed_of_mem nodup (by
    rw [← List.map_prod_right_eq_zip]
    exact List.mem_map_of_mem hb)

theorem exists_of_lookupNamed_key {key : β → String} (h : lookupNamed (l.map key) name l = some b) :
    b ∈ l ∧ key b = name := by
  have mem := mem_of_lookupNamed h
  rw [← List.map_prod_right_eq_zip] at mem
  obtain ⟨c, hc, same⟩ := List.mem_map.mp mem
  obtain ⟨here, rfl⟩ := Prod.mk.inj same
  exact ⟨hc, here⟩

theorem exists_lookupNamed (known : name ∈ names) (same : names.length = l.length) :
    ∃ b, lookupNamed names name l = some b := by
  induction names generalizing l with
  | nil => cases known
  | cons own names ih =>
    obtain ⟨c, l, rfl⟩ := List.exists_cons_of_length_eq_add_one same.symm
    rw [lookupNamed_cons]
    split
    · exact ⟨c, rfl⟩
    · next other =>
      have later := (List.mem_cons.mp known).resolve_left (Ne.symm other)
      exact ih later (Nat.succ.inj same)

theorem lookupNamed_map (f : β → γ) :
    lookupNamed names name (l.map f) = (lookupNamed names name l).map f := by
  induction names generalizing l with
  | nil => rfl
  | cons own names ih =>
    cases l with
    | nil => rfl
    | cons c l =>
      rw [List.map_cons, lookupNamed_cons, lookupNamed_cons, ih]
      split <;> rfl

/-- **An update changes the entry of its name and no other.** -/
theorem lookupNamed_updateNamed (own : String) (f : β → β) :
    lookupNamed names own (updateNamed names name f l) =
      if own = name then (lookupNamed names own l).map f else lookupNamed names own l := by
  induction names generalizing l with
  | nil => split <;> rfl
  | cons first names ih =>
    cases l with
    | nil => split <;> rfl
    | cons c l =>
      have rest := ih (l := l)
      rw [updateNamed] at rest
      rw [updateNamed, List.zipWith_cons_cons, lookupNamed_cons, lookupNamed_cons, rest]
      by_cases here : first = own
      · subst here
        by_cases target : first = name
        · simp [target]
        · simp [target]
      · rw [if_neg here, if_neg here]

theorem eq_of_lookupNamed_eq (nodup : names.Nodup) (same : names.length = l.length)
    (same' : names.length = l'.length)
    (agree : ∀ name, lookupNamed names name l = lookupNamed names name l') : l = l' := by
  refine List.ext_getElem (same.symm.trans same') fun i hi hi' => ?_
  have inside : i < names.length := same ▸ hi
  have mem : (names[i], l[i]) ∈ names.zip l :=
    List.mem_iff_getElem.mpr ⟨i, by simp [inside, hi], by simp⟩
  have mem' : (names[i], l'[i]) ∈ names.zip l' :=
    List.mem_iff_getElem.mpr ⟨i, by simp [inside, hi'], by simp⟩
  have found := agree names[i]
  rw [lookupNamed_of_mem nodup mem, lookupNamed_of_mem nodup mem'] at found
  exact Option.some.inj found

theorem map_updateNamed (f : β → β) {g : β → γ} (keeps : ∀ b, g (f b) = g b)
    (same : names.length = l.length) : (updateNamed names name f l).map g = l.map g := by
  refine List.ext_getElem (by simp [length_updateNamed same]) fun i hi hi' => ?_
  simp only [updateNamed, List.getElem_map, List.getElem_zipWith]
  split
  · exact keeps _
  · rfl

end Named

variable {α : Type}

/-! ## Entries -/

namespace Program

/-- The variable of a name. -/
def variableOf? (p : Program α) (name : String) : Option (Variable α) := lookupNamed p.names name p.vars

/-- The constraint of a label. -/
def constraintOf? (p : Program α) (label : String) : Option (Constraint α) :=
  lookupNamed p.labels label p.constraints

/-- **The number at an entry**, where a program has one. -/
def read (p : Program α) : Entry → Option α
  | .lowerBound name => (p.variableOf? name).map (·.lower)
  | .upperBound name => (p.variableOf? name).bind (·.upper)
  | .coefficient .objective name => lookupNamed p.names name p.objective.coefficients
  | .coefficient (.constraint label) name =>
    (p.constraintOf? label).bind fun c => lookupNamed p.names name c.coefficients
  | .coefficient .change _ => none
  | .limit label => (p.constraintOf? label).map (·.limit)

end Program

namespace Change

/-- **The entries that a change is about**; scaling a constraint is about all its coefficients. -/
def Targets : Change α → Entry → Prop
  | objectiveCoefficient name _, entry => entry = .coefficient .objective name
  | scaleObjectiveCoefficient name _, entry => entry = .coefficient .objective name
  | coefficient label name _, entry => entry = .coefficient (.constraint label) name
  | scaleConstraint label _, entry => ∃ name, entry = .coefficient (.constraint label) name
  | limit label _, entry => entry = .limit label
  | scaleLimit label _, entry => entry = .limit label
  | shiftLimit label _, entry => entry = .limit label
  | upperBound name _, entry => entry = .upperBound name

/-- No change of a list is about an entry. -/
def Untouched (changes : List (Change α)) (entry : Entry) : Prop :=
  ∀ change ∈ changes, ¬change.Targets entry

/-- What a change makes of a number that it is about. -/
def rewrite [Scalar α] : Change α → Option α → Option α
  | objectiveCoefficient _ value, old => old.map fun _ => value
  | scaleObjectiveCoefficient _ factor, old => old.map (· * factor)
  | coefficient _ _ value, old => old.map fun _ => value
  | scaleConstraint _ factor, old => old.map (· * factor)
  | limit _ value, old => old.map fun _ => value
  | scaleLimit _ factor, old => old.map (· * factor)
  | shiftLimit _ delta, old => old.map (· + delta)
  | upperBound _ value, _ => value

end Change

namespace Program

variable {p q : Program α} {entry : Entry} {name label : String}

/-! ## What updates do to the numbers that are read -/

theorem variableOf?_updateVariable (p : Program α) (name : String) (f : Variable α → Variable α)
    (keeps : ∀ v, (f v).name = v.name) (own : String) : (p.updateVariable name f).variableOf? own =
      if own = name then (p.variableOf? own).map f else p.variableOf? own := by
  have same : (p.updateVariable name f).names = p.names := map_updateNamed f keeps length_names
  rw [variableOf?, same]
  exact lookupNamed_updateNamed own f

theorem constraintOf?_updateConstraint (p : Program α) (label : String) (f : Constraint α → Constraint α)
    (keeps : ∀ c, (f c).label = c.label) (own : String) : (p.updateConstraint label f).constraintOf? own =
      if own = label then (p.constraintOf? own).map f else p.constraintOf? own := by
  have same : (p.updateConstraint label f).labels = p.labels := map_updateNamed f keeps length_labels
  rw [constraintOf?, same]
  exact lookupNamed_updateNamed own f

theorem read_updateGain (f : α → α) : (p.updateGain name f).read entry =
    if entry = .coefficient .objective name then (p.read entry).map f else p.read entry := by
  cases entry with
  | coefficient place own =>
    cases place with
    | objective =>
      simp only [Entry.coefficient.injEq, true_and]
      exact lookupNamed_updateNamed own f
    | constraint label => exact (if_neg nofun).symm
    | change => exact (if_neg nofun).symm
  | lowerBound own => exact (if_neg nofun).symm
  | upperBound own => exact (if_neg nofun).symm
  | limit label => exact (if_neg nofun).symm

theorem read_updateLimit (f : α → α) :
    (p.updateConstraint label fun c => { c with limit := f c.limit }).read entry =
      if entry = .limit label then (p.read entry).map f else p.read entry := by
  have found := p.constraintOf?_updateConstraint label (fun c => { c with limit := f c.limit }) fun _ => rfl
  cases entry with
  | limit own =>
    simp only [read, found, Entry.limit.injEq]
    split
    · rw [Option.map_map, Option.map_map]
      rfl
    · rfl
  | coefficient place own =>
    rw [if_neg nofun]
    cases place with
    | objective => rfl
    | constraint label' =>
      simp only [read, found]
      split
      · exact Option.bind_map
      · rfl
    | change => rfl
  | lowerBound own => exact (if_neg nofun).symm
  | upperBound own => exact (if_neg nofun).symm

theorem read_updateUpper (value : Option α) :
    (p.updateVariable name fun v => { v with upper := value }).read entry =
      if entry = .upperBound name then (p.variableOf? name).bind fun _ => value else p.read entry := by
  have found := p.variableOf?_updateVariable name (fun v => { v with upper := value }) fun _ => rfl
  have names : (p.updateVariable name fun v => { v with upper := value }).names = p.names :=
    map_updateNamed _ (fun _ => rfl) length_names
  cases entry with
  | upperBound own =>
    simp only [read, found, Entry.upperBound.injEq]
    split
    · next here =>
      rw [here]
      exact Option.bind_map
    · rfl
  | lowerBound own =>
    rw [if_neg nofun]
    simp only [read, found]
    split
    · rw [Option.map_map]
      rfl
    · rfl
  | coefficient place own =>
    rw [if_neg nofun]
    cases place with
    | objective =>
      rw [read, names]
      rfl
    | constraint label =>
      simp only [read, names]
      rfl
    | change => rfl
  | limit label => exact (if_neg nofun).symm

/-- The row of a constraint changed, coefficient by coefficient. -/
theorem read_updateRow {f : List α → List α} {g : α → α} {own : String}
    (each : ∀ row, lookupNamed p.names own (f row) = (lookupNamed p.names own row).map g) :
    (p.updateConstraint label fun c => { c with coefficients := f c.coefficients }).read
        (.coefficient (.constraint label) own) =
      (p.read (.coefficient (.constraint label) own)).map g := by
  have found := p.constraintOf?_updateConstraint label
    (fun c => { c with coefficients := f c.coefficients }) (fun _ => rfl) label
  rw [if_pos rfl] at found
  simp only [read, found, Option.bind_map, Option.map_bind]
  exact congrArg _ (funext fun c => each c.coefficients)

theorem read_updateRow_of_ne {f : List α → List α}
    (other : ∀ own, entry ≠ .coefficient (.constraint label) own) :
    (p.updateConstraint label fun c => { c with coefficients := f c.coefficients }).read entry =
      p.read entry := by
  have found := p.constraintOf?_updateConstraint label
    (fun c => { c with coefficients := f c.coefficients }) fun _ => rfl
  cases entry with
  | coefficient place own =>
    cases place with
    | constraint label' =>
      have apart : label' ≠ label := fun same => other own (by rw [same])
      simp only [read, found, if_neg apart]
      rfl
    | objective => rfl
    | change => rfl
  | limit own =>
    simp only [read, found]
    split
    · rw [Option.map_map]
      rfl
    · rfl
  | lowerBound own => rfl
  | upperBound own => rfl

/-! ## One change -/

variable [Scalar α] {change : Change α}

/-- **A change leaves alone what it is not about.** -/
theorem read_effect_of_not_targets (untouched : ¬change.Targets entry) :
    (change.effect p).read entry = p.read entry := by
  cases change with
  | objectiveCoefficient name value => exact (read_updateGain _).trans (if_neg untouched)
  | scaleObjectiveCoefficient name factor => exact (read_updateGain _).trans (if_neg untouched)
  | coefficient label name value =>
    by_cases row : ∃ own, entry = .coefficient (.constraint label) own
    · obtain ⟨own, rfl⟩ := row
      have other : own ≠ name := fun same => untouched (by rw [same]; rfl)
      refine (read_updateRow (g := id) fun row => ?_).trans Option.map_id_apply
      rw [lookupNamed_updateNamed, if_neg other, Option.map_id_apply]
    · exact read_updateRow_of_ne (not_exists.mp row)
  | scaleConstraint label factor => exact read_updateRow_of_ne (not_exists.mp untouched)
  | limit label value => exact (read_updateLimit fun _ => value).trans (if_neg untouched)
  | scaleLimit label factor => exact (read_updateLimit (· * factor)).trans (if_neg untouched)
  | shiftLimit label delta => exact (read_updateLimit (· + delta)).trans (if_neg untouched)
  | upperBound name value => exact (read_updateUpper value).trans (if_neg untouched)

/-- **A change that is not refused makes a new number of each that it is about.** -/
theorem read_effect_of_targets (known : change.unknown? p = none) (touched : change.Targets entry) :
    (change.effect p).read entry = change.rewrite (p.read entry) := by
  cases change with
  | objectiveCoefficient name value => exact (read_updateGain _).trans (if_pos touched)
  | scaleObjectiveCoefficient name factor => exact (read_updateGain _).trans (if_pos touched)
  | coefficient label name value =>
    obtain rfl : entry = .coefficient (.constraint label) name := touched
    refine read_updateRow fun row => ?_
    rw [lookupNamed_updateNamed, if_pos rfl]
  | scaleConstraint label factor =>
    obtain ⟨own, rfl⟩ := touched
    exact read_updateRow fun row => lookupNamed_map _
  | limit label value => exact (read_updateLimit fun _ => value).trans (if_pos touched)
  | scaleLimit label factor => exact (read_updateLimit (· * factor)).trans (if_pos touched)
  | shiftLimit label delta => exact (read_updateLimit (· + delta)).trans (if_pos touched)
  | upperBound name value =>
    have mem : name ∈ p.names := by
      by_contra missing
      rw [Change.unknown?, unknownVariable?, if_neg missing] at known
      cases known
    obtain ⟨v, found⟩ := exists_lookupNamed mem length_names
    refine (read_updateUpper value).trans ((if_pos touched).trans ?_)
    rw [variableOf?, found]
    rfl

/-- No change is about the sense or a lower bound. -/
theorem fixed_effect (change : Change α) : (change.effect p).objective.sense = p.objective.sense ∧
    (change.effect p).vars.map (·.lower) = p.vars.map (·.lower) := by
  cases change with
  | upperBound name value => exact ⟨rfl, map_updateNamed _ (fun _ => rfl) length_names⟩
  | objectiveCoefficient name value => exact ⟨rfl, rfl⟩
  | scaleObjectiveCoefficient name factor => exact ⟨rfl, rfl⟩
  | coefficient label name value => exact ⟨rfl, rfl⟩
  | scaleConstraint label factor => exact ⟨rfl, rfl⟩
  | limit label value => exact ⟨rfl, rfl⟩
  | scaleLimit label factor => exact ⟨rfl, rfl⟩
  | shiftLimit label delta => exact ⟨rfl, rfl⟩

end Program

namespace Program

variable {p q : Program α} {entry : Entry}

/-! ## A program is what is read from it -/

attribute [ext] Variable Objective Constraint Program

namespace Tabular

variable (tabular : p.Tabular)
include tabular

theorem variableOf?_eq {v : Variable α} (hv : v ∈ p.vars) : p.variableOf? v.name = some v :=
  lookupNamed_key tabular.names hv

theorem constraintOf?_eq {c : Constraint α} (hc : c ∈ p.constraints) :
    p.constraintOf? c.label = some c := lookupNamed_key tabular.labels hc

theorem read_lower {v : Variable α} (hv : v ∈ p.vars) : p.read (.lowerBound v.name) = some v.lower := by
  rw [read, tabular.variableOf?_eq hv]
  rfl

theorem read_upper {v : Variable α} (hv : v ∈ p.vars) : p.read (.upperBound v.name) = v.upper := by
  rw [read, tabular.variableOf?_eq hv]
  rfl

theorem read_row {c : Constraint α} (hc : c ∈ p.constraints) (name : String) :
    p.read (.coefficient (.constraint c.label) name) = lookupNamed p.names name c.coefficients := by
  rw [read, tabular.constraintOf?_eq hc]
  rfl

theorem read_limit {c : Constraint α} (hc : c ∈ p.constraints) :
    p.read (.limit c.label) = some c.limit := by
  rw [read, tabular.constraintOf?_eq hc]
  rfl

/-- **Two programs of one shape and sense from which the same numbers are read are the same.** -/
theorem eq_of_read_eq (tabular' : q.Tabular) (shape : p.SameShape q)
    (sense : p.objective.sense = q.objective.sense) (same : ∀ entry, p.read entry = q.read entry) :
    p = q := by
  have rows {l l' : List α} (width : l.length = p.names.length) (width' : l'.length = q.names.length)
      (agree : ∀ name, lookupNamed p.names name l = lookupNamed q.names name l') : l = l' := by
    rw [← shape.names] at agree width'
    exact eq_of_lookupNamed_eq tabular.names width.symm width'.symm agree
  have vars : p.vars = q.vars := by
    have count : p.vars.length = q.vars.length := by
      rw [← length_names, ← length_names, shape.names]
    refine List.ext_getElem count fun j hj hj' => ?_
    have name : p.vars[j].name = q.vars[j].name := by
      have here := congrArg (·[j]?) shape.names
      simpa [Program.names, hj, hj'] using here
    have lower := same (.lowerBound p.vars[j].name)
    have upper := same (.upperBound p.vars[j].name)
    rw [tabular.read_lower (List.getElem_mem hj), name,
      tabular'.read_lower (List.getElem_mem hj')] at lower
    rw [tabular.read_upper (List.getElem_mem hj), name,
      tabular'.read_upper (List.getElem_mem hj')] at upper
    exact Variable.ext name (Option.some.inj lower) upper
  have objective : p.objective = q.objective :=
    Objective.ext sense (rows tabular.objective tabular'.objective fun name =>
      same (.coefficient .objective name))
  have constraints : p.constraints = q.constraints := by
    have count : p.constraints.length = q.constraints.length := by
      rw [← length_labels, ← length_labels, shape.labels]
    refine List.ext_getElem count fun i hi hi' => ?_
    have label : p.constraints[i].label = q.constraints[i].label := by
      have here := congrArg (·[i]?) shape.labels
      simpa [Program.labels, hi, hi'] using here
    have relation : p.constraints[i].relation = q.constraints[i].relation := by
      have here := congrArg (·[i]?) shape.relations
      simpa [relations, hi, hi'] using here
    have row : p.constraints[i].coefficients = q.constraints[i].coefficients := by
      refine rows (tabular.rows _ (List.getElem_mem hi)) (tabular'.rows _ (List.getElem_mem hi'))
        fun name => ?_
      rw [← tabular.read_row (List.getElem_mem hi), ← tabular'.read_row (List.getElem_mem hi'), label]
      exact same _
    have limit := same (.limit p.constraints[i].label)
    rw [tabular.read_limit (List.getElem_mem hi), label,
      tabular'.read_limit (List.getElem_mem hi')] at limit
    exact Constraint.ext label row relation (Option.some.inj limit)
  exact Program.ext vars objective constraints

end Tabular

/-! ## Flaws of a table -/

variable [Scalar α]

/-- **The flaws that the numbers of a program can have**, each with what is read at it. -/
inductive NumberFlaw (p : Program α) : Flaw α → Prop where
  | nonFinite {entry : Entry} {x : α} (here : p.read entry = some x)
      (infinite : Scalar.isFinite x = false) : NumberFlaw p (.nonFinite entry)
  | negativeLowerBound {name : String} {lower : α} (here : p.read (.lowerBound name) = some lower)
      (negative : lower < 0) : NumberFlaw p (.negativeLowerBound name lower)
  | invertedBounds {name : String} {lower upper : α} (here : p.read (.lowerBound name) = some lower)
      (above : p.read (.upperBound name) = some upper) (inverted : upper < lower) :
      NumberFlaw p (.invertedBounds name lower upper)

omit [Scalar α] in
theorem mem_flawIf {found : Bool} {cause flaw : Flaw α} :
    flaw ∈ flawIf found cause ↔ found = true ∧ flaw = cause := by
  cases found <;> simp [flawIf]

theorem exists_of_coefficientsFlaw? {place : Place} {names : List String} {row : List α} {flaw : Flaw α}
    (width : row.length = names.length) (h : coefficientsFlaw? place names row = some flaw) :
    ∃ name a, (name, a) ∈ names.zip row ∧ Scalar.isFinite a = false ∧
      flaw = .nonFinite (.coefficient place name) := by
  rw [coefficientsFlaw?, if_neg (not_not.mpr width)] at h
  obtain ⟨⟨name, a⟩, found, rfl⟩ := Option.map_eq_some_iff.mp h
  have infinite := List.find?_some found
  exact ⟨name, a, List.mem_of_find?_eq_some found, by simpa using infinite, rfl⟩

theorem exists_of_constraintsFlaw? {names seen : List String} {cs : List (Constraint α)} {flaw : Flaw α}
    (fresh : ∀ c ∈ cs, c.label ∉ seen) (unique : (cs.map (·.label)).Nodup)
    (h : constraintsFlaw? names seen cs = some flaw) :
    ∃ c ∈ cs, coefficientsFlaw? (.constraint c.label) names c.coefficients = some flaw ∨
      Scalar.isFinite c.limit = false ∧ flaw = .nonFinite (.limit c.label) := by
  induction cs generalizing seen with
  | nil => cases h
  | cons c cs ih =>
    obtain ⟨here, rest⟩ := List.forall_mem_cons.mp fresh
    obtain ⟨new, unique⟩ := List.nodup_cons.mp unique
    have still : ∀ d ∈ cs, d.label ∉ c.label :: seen := by
      intro d hd
      have other : d.label ≠ c.label := fun same => new (List.mem_map.mpr ⟨d, hd, same⟩)
      exact List.not_mem_cons_of_ne_of_not_mem other (rest d hd)
    rw [constraintsFlaw?, if_neg here] at h
    simp only [Option.orElse_eq_orElse, Option.orElse_eq_or, Option.or_eq_some_iff] at h
    obtain row | ⟨-, limit | ⟨-, later⟩⟩ := h
    · exact ⟨c, List.mem_cons_self, .inl row⟩
    · cases finite : Scalar.isFinite c.limit with
      | true =>
        rw [if_pos finite] at limit
        cases limit
      | false =>
        rw [if_neg (by simp [finite])] at limit
        exact ⟨c, List.mem_cons_self, .inr ⟨finite, (Option.some.inj limit).symm⟩⟩
    · obtain ⟨d, hd, found⟩ := ih still unique later
      exact ⟨d, List.mem_cons_of_mem _ hd, found⟩

/-- **A program whose numbers are in their places can only have flaws of its numbers.** -/
theorem Tabular.numberFlaw (tabular : p.Tabular) (nonempty : p.vars ≠ []) {flaw : Flaw α}
    (h : p.flaw? = some flaw) : p.NumberFlaw flaw := by
  have bounds : variablesFlaw? [] p.vars = (p.vars.flatMap Variable.boundsFlaws).head? :=
    variablesFlaw?_eq (fun _ _ => List.not_mem_nil) tabular.names
  rw [flaw?, if_neg (by simpa using nonempty), bounds] at h
  simp only [Option.orElse_eq_orElse, Option.orElse_eq_or, Option.or_eq_some_iff] at h
  obtain first | ⟨-, objective | ⟨-, later⟩⟩ := h
  · obtain ⟨v, hv, mem⟩ := List.mem_flatMap.mp (List.mem_of_mem_head? first)
    have lower := tabular.read_lower hv
    have upper := tabular.read_upper hv
    rw [Variable.boundsFlaws, List.mem_append, List.mem_append] at mem
    obtain mem | mem | mem := mem
    · obtain ⟨infinite, rfl⟩ := mem_flawIf.mp mem
      exact .nonFinite lower (by simpa using infinite)
    · obtain ⟨negative, rfl⟩ := mem_flawIf.mp mem
      exact .negativeLowerBound lower (of_decide_eq_true negative)
    · obtain ⟨u, hu, mem⟩ := List.mem_flatMap.mp mem
      rw [Option.mem_toList.mp hu] at upper
      obtain mem | mem := List.mem_append.mp mem
      · obtain ⟨infinite, rfl⟩ := mem_flawIf.mp mem
        exact .nonFinite upper (by simpa using infinite)
      · obtain ⟨inverted, rfl⟩ := mem_flawIf.mp mem
        exact .invertedBounds lower upper (of_decide_eq_true inverted)
  · obtain ⟨name, a, mem, infinite, rfl⟩ := exists_of_coefficientsFlaw? tabular.objective objective
    exact .nonFinite (lookupNamed_of_mem tabular.names mem) infinite
  · obtain ⟨c, hc, row | ⟨infinite, rfl⟩⟩ :=
      exists_of_constraintsFlaw? (fun _ _ => List.not_mem_nil) tabular.labels later
    · obtain ⟨name, a, mem, infinite, rfl⟩ := exists_of_coefficientsFlaw? (tabular.rows c hc) row
      have here := (tabular.read_row hc name).trans (lookupNamed_of_mem tabular.names mem)
      exact .nonFinite here infinite
    · exact .nonFinite (tabular.read_limit hc) infinite

namespace WellFormed

variable (h : p.WellFormed)
include h

theorem isFinite_read {x : α} (hx : p.read entry = some x) : Scalar.isFinite x = true := by
  cases entry with
  | lowerBound name =>
    obtain ⟨v, found, rfl⟩ := Option.map_eq_some_iff.mp hx
    exact (h.bounds v (exists_of_lookupNamed_key found).1).finite
  | upperBound name =>
    obtain ⟨v, found, upper⟩ := Option.bind_eq_some_iff.mp hx
    exact ((h.bounds v (exists_of_lookupNamed_key found).1).upper x upper).1
  | coefficient place name =>
    cases place with
    | objective => exact h.objective.finite x (List.of_mem_zip (mem_of_lookupNamed hx)).2
    | constraint label =>
      obtain ⟨c, found, row⟩ := Option.bind_eq_some_iff.mp hx
      have mem := (List.of_mem_zip (mem_of_lookupNamed row)).2
      exact (h.rows c (exists_of_lookupNamed_key found).1).finite x mem
    | change => cases hx
  | limit label =>
    obtain ⟨c, found, rfl⟩ := Option.map_eq_some_iff.mp hx
    exact h.limits c (exists_of_lookupNamed_key found).1

/-- The bounds that are read at one name are proper. -/
theorem proper_read {name : String} {lower : α} (hl : p.read (.lowerBound name) = some lower) :
    ¬lower < 0 ∧ ∀ upper, p.read (.upperBound name) = some upper → ¬upper < lower := by
  obtain ⟨v, found, rfl⟩ := Option.map_eq_some_iff.mp hl
  have proper := h.bounds v (exists_of_lookupNamed_key found).1
  refine ⟨proper.nonneg, fun upper above => (proper.upper upper ?_).2⟩
  rw [read, found] at above
  exact above

end WellFormed

/-! ## Lists of changes -/

variable {changes more : List (Change α)}

/-- **A list of changes leaves alone what none of them is about.** -/
theorem read_foldl_of_untouched (untouched : Change.Untouched changes entry) :
    (changes.foldl Change.effect p).read entry = p.read entry := by
  refine List.foldlRecOn (motive := fun q : Program α => q.read entry = p.read entry) changes
    Change.effect rfl fun q same change mem => ?_
  exact (read_effect_of_not_targets (untouched change mem)).trans same

theorem fixed_foldl (changes : List (Change α)) :
    (changes.foldl Change.effect p).objective.sense = p.objective.sense ∧
      (changes.foldl Change.effect p).vars.map (·.lower) = p.vars.map (·.lower) := by
  refine List.foldlRecOn (motive := fun q : Program α => q.objective.sense = p.objective.sense ∧
    q.vars.map (·.lower) = p.vars.map (·.lower)) changes Change.effect ⟨rfl, rfl⟩ ?_
  rintro q ⟨sense, lower⟩ change -
  exact ⟨(fixed_effect change).1.trans sense, (fixed_effect change).2.trans lower⟩

namespace Tabular

variable (tabular : p.Tabular)
include tabular

/-- **Changes that are not refused keep the shape of the table.** -/
theorem foldl (known : ∀ change ∈ changes, change.unknown? p = none) :
    p.SameShape (changes.foldl Change.effect p) ∧ (changes.foldl Change.effect p).Tabular := by
  refine List.foldlRecOn (motive := fun q : Program α => p.SameShape q ∧ q.Tabular) changes
    Change.effect ⟨.refl p, tabular⟩ ?_
  rintro q ⟨shape, tabular'⟩ change mem
  obtain ⟨next, after⟩ := tabular'.step ((shape.unknown?_eq change).trans (known change mem))
  exact ⟨shape.trans next, after⟩

/-- What a list of changes makes of a number depends on that number only. -/
theorem read_foldl_congr (tabular' : q.Tabular) (shape : p.SameShape q)
    (known : ∀ change ∈ changes, change.unknown? p = none) (same : p.read entry = q.read entry) :
    (changes.foldl Change.effect p).read entry = (changes.foldl Change.effect q).read entry := by
  induction changes generalizing p q with
  | nil => exact same
  | cons change changes ih =>
    obtain ⟨known, rest⟩ := List.forall_mem_cons.mp known
    have known' := (shape.unknown?_eq change).trans known
    obtain ⟨next, after⟩ := tabular.step known
    obtain ⟨next', after'⟩ := tabular'.step known'
    refine ih after after' (next.symm.trans (shape.trans next'))
      (fun c hc => (next.unknown?_eq c).trans (rest c hc)) ?_
    by_cases touched : change.Targets entry
    · rw [read_effect_of_targets known touched, read_effect_of_targets known' touched, same]
    · rw [read_effect_of_not_targets touched, read_effect_of_not_targets touched, same]

/-- **Two lists that are not about the same entry may be made in either order.** -/
theorem foldl_append_comm (known : ∀ change ∈ changes, change.unknown? p = none)
    (known' : ∀ change ∈ more, change.unknown? p = none)
    (apart : ∀ entry, Change.Untouched changes entry ∨ Change.Untouched more entry) :
    (changes ++ more).foldl Change.effect p = (more ++ changes).foldl Change.effect p := by
  rw [List.foldl_append, List.foldl_append]
  obtain ⟨shape, first⟩ := tabular.foldl known
  obtain ⟨shape', second⟩ := tabular.foldl known'
  have still : ∀ change ∈ more, change.unknown? (changes.foldl Change.effect p) = none :=
    fun change mem => (shape.unknown?_eq change).trans (known' change mem)
  have still' : ∀ change ∈ changes, change.unknown? (more.foldl Change.effect p) = none :=
    fun change mem => (shape'.unknown?_eq change).trans (known change mem)
  obtain ⟨shapes, both⟩ := first.foldl still
  obtain ⟨shapes', both'⟩ := second.foldl still'
  refine both.eq_of_read_eq both' ((shape.trans shapes).symm.trans (shape'.trans shapes')) ?_
    fun entry => ?_
  · rw [(fixed_foldl more).1, (fixed_foldl changes).1, (fixed_foldl changes).1, (fixed_foldl more).1]
  · obtain untouched | untouched := apart entry
    · calc (more.foldl Change.effect (changes.foldl Change.effect p)).read entry
        _ = (more.foldl Change.effect p).read entry :=
          first.read_foldl_congr tabular shape.symm still (read_foldl_of_untouched untouched)
        _ = (changes.foldl Change.effect (more.foldl Change.effect p)).read entry :=
          (read_foldl_of_untouched untouched).symm
    · calc (more.foldl Change.effect (changes.foldl Change.effect p)).read entry
        _ = (changes.foldl Change.effect p).read entry := read_foldl_of_untouched untouched
        _ = (changes.foldl Change.effect (more.foldl Change.effect p)).read entry :=
          tabular.read_foldl_congr second shape' known (read_foldl_of_untouched untouched).symm

theorem changed_eq (changes : List (Change α)) : p.changed changes =
    (changes.findSome? (·.unknown? p)).elim (changes.foldl Change.effect p).checked .error := by
  rw [changed, tabular.applyAll_eq]
  cases changes.findSome? (·.unknown? p) <;> rfl

/-- **A list of changes is made** when every name is known and the result has no flaw. -/
theorem changed_eq_ok_iff : p.changed changes = .ok q ↔
    (∀ change ∈ changes, change.unknown? p = none) ∧ changes.foldl Change.effect p = q ∧
      q.flaw? = none := by
  rw [tabular.changed_eq, ← List.findSome?_eq_none_iff]
  cases changes.findSome? (·.unknown? p) with
  | some flaw => exact ⟨nofun, nofun⟩
  | none =>
    constructor
    · intro ok
      obtain ⟨unflawed, rfl⟩ := checked_eq_ok_iff.mp ok
      exact ⟨rfl, rfl, unflawed⟩
    · rintro ⟨-, rfl, unflawed⟩
      exact checked_eq_ok_iff.mpr ⟨unflawed, rfl⟩

end Tabular

/-! ## Refusals -/

/-- **Why a list of changes is refused**: for a name that the program does not have, or for a number that
one of them is about. -/
inductive Refusal (p : Program α) (changes : List (Change α)) : Flaw α → Prop where
  | unknownVariable {name : String} (missing : name ∉ p.names) :
      Refusal p changes (.unknownVariable .change name)
  | unknownConstraint {label : String} (missing : label ∉ p.labels) :
      Refusal p changes (.unknownConstraint label)
  | nonFinite {entry : Entry} (touched : ∃ change ∈ changes, change.Targets entry) :
      Refusal p changes (.nonFinite entry)
  | invertedBounds {name : String} {lower upper : α}
      (touched : ∃ change ∈ changes, change.Targets (.upperBound name)) :
      Refusal p changes (.invertedBounds name lower upper)

omit [Scalar α] in
theorem Refusal.of_unknownVariable? {name : String} {flaw : Flaw α}
    (h : p.unknownVariable? name = some flaw) : p.Refusal changes flaw := by
  unfold unknownVariable? at h
  split at h
  · cases h
  · next missing =>
    cases h
    exact .unknownVariable missing

omit [Scalar α] in
theorem Refusal.of_unknownConstraint? {label : String} {flaw : Flaw α}
    (h : p.unknownConstraint? label = some flaw) : p.Refusal changes flaw := by
  unfold unknownConstraint? at h
  split at h
  · cases h
  · next missing =>
    cases h
    exact .unknownConstraint missing

omit [Scalar α] in
theorem Refusal.of_unknown? {change : Change α} {flaw : Flaw α} (h : change.unknown? p = some flaw) :
    p.Refusal changes flaw := by
  cases change with
  | objectiveCoefficient name value => exact .of_unknownVariable? h
  | scaleObjectiveCoefficient name factor => exact .of_unknownVariable? h
  | coefficient label name value =>
    rw [Change.unknown?, Option.orElse_eq_orElse, Option.orElse_eq_or, Option.or_eq_some_iff] at h
    obtain missing | ⟨-, missing⟩ := h
    · exact .of_unknownVariable? missing
    · exact .of_unknownConstraint? missing
  | scaleConstraint label factor => exact .of_unknownConstraint? h
  | limit label value => exact .of_unknownConstraint? h
  | scaleLimit label factor => exact .of_unknownConstraint? h
  | shiftLimit label delta => exact .of_unknownConstraint? h
  | upperBound name value => exact .of_unknownVariable? h

omit [Scalar α] in
theorem untouched_lowerBound (name : String) : Change.Untouched changes (.lowerBound name) := by
  rintro change - touched
  cases change with
  | scaleConstraint label factor =>
    obtain ⟨own, same⟩ := touched
    cases same
  | _ => cases touched

/-- **A flaw of the numbers of a changed program is one of a number that was changed.** -/
theorem WellFormed.refusal_of_numberFlaw (h : p.WellFormed) {flaw : Flaw α}
    (flawed : (changes.foldl Change.effect p).NumberFlaw flaw) : p.Refusal changes flaw := by
  have touched {entry : Entry} (changed : ¬Change.Untouched changes entry) :
      ∃ change ∈ changes, change.Targets entry := by
    simpa [Change.Untouched] using changed
  have lowerBound (name : String) :
      (changes.foldl Change.effect p).read (.lowerBound name) = p.read (.lowerBound name) :=
    read_foldl_of_untouched (untouched_lowerBound name)
  cases flawed with
  | nonFinite here infinite =>
    refine .nonFinite (touched fun untouched => ?_)
    rw [read_foldl_of_untouched untouched] at here
    exact absurd (h.isFinite_read here) (by simp [infinite])
  | negativeLowerBound here negative =>
    rw [lowerBound] at here
    exact absurd negative (h.proper_read here).1
  | invertedBounds here above inverted =>
    refine .invertedBounds (touched fun untouched => ?_)
    rw [lowerBound] at here
    rw [read_foldl_of_untouched untouched] at above
    exact absurd inverted ((h.proper_read here).2 _ above)

theorem WellFormed.refusal_of_changed (h : p.WellFormed) {flaw : Flaw α}
    (refused : p.changed changes = .error flaw) : p.Refusal changes flaw := by
  rw [h.tabular.changed_eq] at refused
  cases unknown : changes.findSome? (·.unknown? p) with
  | some first =>
    rw [unknown] at refused
    obtain rfl := Except.error.inj refused
    obtain ⟨change, -, unknown⟩ := List.exists_of_findSome?_eq_some unknown
    exact .of_unknown? unknown
  | none =>
    rw [unknown] at refused
    obtain ⟨shape, tabular⟩ := h.tabular.foldl (List.findSome?_eq_none_iff.mp unknown)
    have nonempty : (changes.foldl Change.effect p).vars ≠ [] := by
      rw [← List.length_pos_iff, ← length_names, ← shape.names, length_names, List.length_pos_iff]
      exact h.nonempty
    refine h.refusal_of_numberFlaw (tabular.numberFlaw nonempty ?_)
    change Program.checked _ = .error flaw at refused
    unfold checked at refused
    split at refused
    · cases refused
    · next first found =>
      obtain rfl := Except.error.inj refused
      exact found

/-- **Changes touch only what they are about**, for every valid program and all lists. A changed program has
the shape, the sense and the lower bounds of its base, and every number that no change of the list is
about. Asking what changes would do fails only for an unknown name, or for a number that is not
finite or an upper bound below the lower one where a change of the list was made. And two lists of
known names that are not about the same number may be made in either order, refusals included. -/
theorem changes_touch_targets (p : Program α) (valid : p.flaw? = none) (changes more : List (Change α)) :
    (∀ q, p.changed changes = .ok q → p.mismatch? q = none ∧ q.objective.sense = p.objective.sense ∧
      q.vars.map (·.lower) = p.vars.map (·.lower) ∧
      ∀ entry, Change.Untouched changes entry → q.read entry = p.read entry) ∧
    (∀ s flaw, whatIf s p changes = .error flaw → p.Refusal changes flaw) ∧
    ((∀ change ∈ changes ++ more, change.unknown? p = none) →
      (∀ entry, Change.Untouched changes entry ∨ Change.Untouched more entry) →
      p.changed (changes ++ more) = p.changed (more ++ changes)) := by
  have wellFormed := p.flaw?_eq_none_iff.mp valid
  have tabular := wellFormed.tabular
  refine ⟨fun q ok => ?_, fun s flaw refused => ?_, fun known apart => ?_⟩
  · obtain ⟨known, rfl, -⟩ := tabular.changed_eq_ok_iff.mp ok
    obtain ⟨sense, lower⟩ := fixed_foldl (p := p) changes
    exact ⟨mismatch?_eq_none_iff.mpr (tabular.foldl known).1, sense, lower,
      fun _ => read_foldl_of_untouched⟩
  · cases changed : p.changed changes with
    | error first =>
      rw [whatIf, changed] at refused
      obtain rfl := Except.error.inj refused
      exact wellFormed.refusal_of_changed changed
    | ok q =>
      -- a changed program has the shape of its base, so the comparison is not refused
      have shape := mismatch?_eq_none_iff.mpr (sameShape_changed changed).1
      rw [whatIf, changed] at refused
      change compare s p q = .error flaw at refused
      rw [compare, shape] at refused
      cases refused
  · obtain ⟨first, second⟩ := List.forall_mem_append.mp known
    have unrefused : (changes ++ more).findSome? (·.unknown? p) = none :=
      List.findSome?_eq_none_iff.mpr known
    have unrefused' : (more ++ changes).findSome? (·.unknown? p) = none :=
      List.findSome?_eq_none_iff.mpr (List.forall_mem_append.mpr ⟨second, first⟩)
    rw [tabular.changed_eq, tabular.changed_eq, unrefused, unrefused',
      tabular.foldl_append_comm first second apart]

/-- Changes of the sample that are about none of the numbers that `sampleChanges` are about. -/
def otherChanges : List (Change ℚ) := [.limit "mix" 6, .scaleConstraint "mix" 2,
  .scaleObjectiveCoefficient "y" 2, .upperBound "y" (some 7)]

/-- A change that puts an upper bound of the sample below the lower one. -/
def invertingChanges : List (Change ℚ) := [.upperBound "x" (some 0)]

theorem changes_touch_targets_sample :
    (sample.flaw? = none ∧
      (∀ change ∈ sampleChanges ++ otherChanges, change.unknown? sample = none) ∧
      (∀ entry, Change.Untouched sampleChanges entry ∨ Change.Untouched otherChanges entry) ∧
      whatIf .default sample invertingChanges = .error (.invertedBounds "x" 1 0)) ∧
    sample.changed (sampleChanges ++ otherChanges) = sample.changed (otherChanges ++ sampleChanges) ∧
    (∃ q, sample.changed sampleChanges = .ok q ∧ sample.mismatch? q = none ∧
      q.read (.limit "mix") = sample.read (.limit "mix") ∧ q.read (.limit "together") = some 7) ∧
    sample.Refusal invertingChanges (.invertedBounds "x" 1 0) := by
  have known : ∀ change ∈ sampleChanges ++ otherChanges, change.unknown? sample = none := by decide
  have apart (entry : Entry) :
      Change.Untouched sampleChanges entry ∨ Change.Untouched otherChanges entry := by
    simp only [Change.Untouched, sampleChanges, otherChanges, List.forall_mem_cons, Change.Targets]
    grind
  have inverted : whatIf .default sample invertingChanges = .error (.invertedBounds "x" 1 0) := by
    decide +kernel
  obtain ⟨framed, -, swapped⟩ := changes_touch_targets sample flaw?_sample sampleChanges otherChanges
  have ok : sample.changed sampleChanges = .ok (sampleChanges.foldl Change.effect sample) := by
    decide +kernel
  obtain ⟨shape, -, -, same⟩ := framed _ ok
  have untouched : Change.Untouched sampleChanges (.limit "mix") := by
    simp [Change.Untouched, sampleChanges, Change.Targets]
  exact ⟨⟨flaw?_sample, known, apart, inverted⟩, swapped known apart,
    ⟨_, ok, shape, same _ untouched, by decide +kernel⟩,
    (changes_touch_targets sample flaw?_sample invertingChanges []).2.1 _ _ inverted⟩

end Program

end Allotment
