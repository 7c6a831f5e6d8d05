import Allotment.Exchange.Change
import Allotment.Exchange.Draft
import Allotment.Exchange.Ready
import Allotment.Proofs.RoundTrip

/-!
# Records survive being written and read

Drafts, changes, the parameters of the ready programs and the settings are written in one form each,
described by a schema, and read from many: a field may go by another name or be left out, a sense or a
relation may be named by another word, a change may be a list that starts with its kind, and members
that no field asks for may stand anywhere. The names that are written and those that are read are
chosen apart from each other, so that they agree is a theorem for each kind of record
(`Draft.roundTrips` and its like), and `records_survive` puts these together.

All of it holds over each number system in which what a record has by default is finite, because a
number that is not finite is written as null.
-/

namespace Allotment
set_option autoImplicit false

open Json Fields

variable {α : Type} [Scalar α]

/-! ## The numbers of a record -/

/-- Each of some numbers is finite. -/
def AllFinite (xs : List α) : Prop := ∀ x ∈ xs, Scalar.isFinite x = true

instance (xs : List α) : Decidable (AllFinite xs) := inferInstanceAs (Decidable (∀ x ∈ xs, _))

theorem allFinite_nil : AllFinite ([] : List α) := List.forall_mem_nil _

theorem allFinite_singleton (x : α) : AllFinite [x] ↔ Scalar.isFinite x = true := List.forall_mem_singleton

theorem allFinite_cons (x : α) (xs : List α) :
    AllFinite (x :: xs) ↔ Scalar.isFinite x = true ∧ AllFinite xs := List.forall_mem_cons

theorem allFinite_append (xs ys : List α) : AllFinite (xs ++ ys) ↔ AllFinite xs ∧ AllFinite ys :=
  List.forall_mem_append

theorem allFinite_flatMap {β : Type} (f : β → List α) (bs : List β) :
    AllFinite (bs.flatMap f) ↔ ∀ b ∈ bs, AllFinite (f b) := List.forall_mem_flatMap

/-- The numbers of a variable. -/
def Variable.numbers (v : Variable α) : List α := v.lower :: v.upper.toList

/-- The numbers of the objective of a draft. -/
def DraftObjective.numbers (o : DraftObjective α) : List α := o.coefficients.values

/-- The numbers of a constraint of a draft. -/
def DraftConstraint.numbers (c : DraftConstraint α) : List α := c.limit :: c.coefficients.values

/-- The numbers of a draft. -/
def Draft.numbers (d : Draft α) : List α :=
  d.vars.flatMap Variable.numbers ++ (d.objective.numbers ++ d.constraints.flatMap DraftConstraint.numbers)

/-- The numbers of a change. -/
def Change.numbers : Change α → List α
  | objectiveCoefficient _ x | scaleObjectiveCoefficient _ x | coefficient _ _ x | scaleConstraint _ x
  | limit _ x | scaleLimit _ x | shiftLimit _ x => [x]
  | upperBound _ x => x.toList

namespace Ready

/-- The numbers of a production plan. -/
def Production.numbers (m : Production α) : List α :=
  [m.workers, m.hoursPerWorker, m.phoneHours, m.tabletHours, m.phoneMaterial, m.tabletMaterial,
    m.materialBudget, m.storageSpace, m.phoneSpace, m.tabletSpace, m.phoneProfit, m.tabletProfit]

/-- The numbers of a question about a production plan. -/
def WhatIf.numbers (w : WhatIf α) : List α :=
  [w.materialCostChange, w.workerChange, w.phoneProfitChange, w.tabletProfitChange]

/-- The numbers of a portfolio. -/
def Portfolio.numbers (f : Portfolio α) : List α :=
  [f.equityReturn, f.bondReturn, f.depositReturn, f.maxEquity, f.minBonds, f.minDeposits]

end Ready

/-- The numbers of the settings of the simplex method that are not counts. -/
def SolverSettings.numbers (s : SolverSettings α) : List α := [s.pivotTolerance, s.bindingTolerance]

/-- The numbers of the settings of the pricing of constraints. -/
def PricingSettings.numbers (s : PricingSettings α) : List α := [s.step]

/-- **A number system in which what a record has by default is finite.** -/
class FiniteDefaults (α : Type) [Scalar α] : Prop where
  zero : Scalar.isFinite (0 : α) = true
  production : AllFinite (Ready.Production.default : Ready.Production α).numbers
  portfolio : AllFinite (Ready.Portfolio.default : Ready.Portfolio α).numbers
  solver : AllFinite (SolverSettings.default : SolverSettings α).numbers
  pricing : AllFinite (PricingSettings.default : PricingSettings α).numbers

instance : FiniteDefaults Rat where
  zero := rfl
  production _ _ := rfl
  portfolio _ _ := rfl
  solver _ _ := rfl
  pricing _ _ := rfl

instance : FiniteDefaults Float where
  zero := by decide
  production := by decide
  portfolio := by decide
  solver := by decide
  pricing := by decide

namespace Json

/-- A bound that may be absent. -/
theorem roundTrips_bound : RoundTrips (α := α) (.optional .number) (ofOption ofReal) (option? real?)
    fun x => AllFinite x.toList := by
  have bound := roundTrips_real (α := α).option fun x finite => by simp [ofReal_of_finite finite]
  have finite (x : Option α) : AllFinite x.toList ↔ ∀ y ∈ x, Scalar.isFinite y = true := by
    simp [AllFinite]
  exact ⟨fun x hx => bound.back x ((finite x).mp hx), fun x hx => bound.fits x ((finite x).mp hx),
    fun j x read => (finite x).mpr (bound.proper j x read)⟩

/-- Fields that are all numbers. -/
def numbered (names : List String) (xs : List α) : Fields α :=
  List.zipWith (fun name x => (name, ofReal x)) names xs

theorem fits_numbered (names : List String) (xs : List α) (length : names.length = xs.length)
    (finite : AllFinite xs) : Fits (.record (names.map (·, .number))) (obj (numbered names xs)) := by
  induction names generalizing xs with
  | nil => exact .empty
  | cons name names ih =>
    obtain ⟨x, xs, rfl⟩ := List.exists_cons_of_length_eq_add_one length.symm
    obtain ⟨head, tail⟩ := (allFinite_cons ..).mp finite
    exact .field (roundTrips_real.fits x head) (ih xs (Nat.succ.inj length) tail)

/-- A number with a default is read as it was written. -/
theorem number {fields : Fields α} {numbers : List α} (distinct : (fields.map (·.1)).Nodup)
    (finite : AllFinite numbers) (i : ℕ) {name : String} {x default : α}
    (written : fields[i]? = some (name, ofReal x)) (listed : numbers[i]? = some x) :
    fields.optional? name default real? = some x :=
  roundTrips_real.optional?_back distinct i written (finite x (List.mem_of_getElem? listed))

end Json

/-! ## Programs described by names -/

namespace Sense

/-- The form in which a sense is written. -/
def schema : Schema := .word ["max", "min"]

theorem roundTrips : RoundTrips (α := α) schema toJson ofJson? fun _ => True where
  back s _ := by cases s <;> rfl
  fits s _ := .word (by cases s <;> decide)
  proper _ _ _ := trivial

end Sense

namespace Relation

/-- The form in which a relation is written. -/
def schema : Schema := .word ["<=", ">=", "="]

theorem roundTrips : RoundTrips (α := α) schema toJson ofJson? fun _ => True where
  back r _ := by cases r <;> rfl
  fits r _ := .word (by cases r <;> decide)
  proper _ _ _ := trivial

end Relation

namespace DraftObjective

/-- The form in which an objective is written. -/
def schema : Schema := .record [("direction", Sense.schema), ("coefficients", .map .number)]

theorem roundTrips : RoundTrips (α := α) schema toJson ofJson? fun o => AllFinite o.numbers where
  back o finite := by
    obtain ⟨distinct, fields⟩ : Finds shape (toJson o) _ := finds_written (by decide) rfl
    exact bind_eq_some fields <|
      bind_eq_some (Sense.roundTrips.required?_back distinct 0 rfl trivial) <|
      bind_eq_some (roundTrips_real.map.optional?_back distinct 1 rfl finite) rfl
  fits o finite := .field (Sense.roundTrips.fits _ trivial) <|
    .field (roundTrips_real.map.fits _ finite) .empty
  proper j :=
    .bind .any fun _ _ => .bind .any fun _ _ =>
      .bind (roundTrips_real.map.optional? allFinite_nil) fun _ coefficients => .pure coefficients

end DraftObjective

namespace DraftConstraint

/-- The form in which a constraint is written. -/
def schema : Schema :=
  .record
    [("label", .text), ("coefficients", .map .number), ("operator", Relation.schema), ("limit", .number)]

theorem roundTrips : RoundTrips (α := α) schema toJson ofJson? fun c => AllFinite c.numbers where
  back c finite := by
    obtain ⟨distinct, fields⟩ : Finds shape (toJson c) _ := finds_written (by decide) rfl
    obtain ⟨limit, coefficients⟩ := (allFinite_cons ..).mp finite
    exact bind_eq_some fields <|
      bind_eq_some (roundTrips_str.required?_back distinct 0 rfl trivial) <|
      bind_eq_some (roundTrips_real.map.required?_back distinct 1 rfl coefficients) <|
      bind_eq_some (Relation.roundTrips.required?_back distinct 2 rfl trivial) <|
      bind_eq_some (roundTrips_real.required?_back distinct 3 rfl limit) rfl
  fits c finite := by
    obtain ⟨limit, coefficients⟩ := (allFinite_cons ..).mp finite
    exact .field (.text c.label) <| .field (roundTrips_real.map.fits _ coefficients) <|
      .field (Relation.roundTrips.fits _ trivial) <| .field (roundTrips_real.fits _ limit) .empty
  proper j :=
    .bind .any fun _ _ => .bind .any fun _ _ =>
      .bind roundTrips_real.map.required? fun _ coefficients => .bind .any fun _ _ =>
      .bind roundTrips_real.required? fun _ limit => .pure ((allFinite_cons ..).mpr ⟨limit, coefficients⟩)

end DraftConstraint

namespace Variable

/-- The form in which a variable is written. -/
def schema : Schema :=
  .record [("name", .text), ("lower_bound", .number), ("upper_bound", .optional .number)]

theorem roundTrips [FiniteDefaults α] :
    RoundTrips (α := α) schema draftJson ofDraftJson? fun v => AllFinite v.numbers where
  back v finite := by
    obtain ⟨distinct, fields⟩ : Finds draftShape (draftJson v) _ := finds_written (by decide) rfl
    obtain ⟨lower, upper⟩ := (allFinite_cons ..).mp finite
    exact bind_eq_some fields <|
      bind_eq_some (roundTrips_str.required?_back distinct 0 rfl trivial) <|
      bind_eq_some (roundTrips_real.optional?_back distinct 1 rfl lower) <|
      bind_eq_some (roundTrips_bound.optional?_back distinct 2 rfl upper) rfl
  fits v finite := by
    obtain ⟨lower, upper⟩ := (allFinite_cons ..).mp finite
    exact .field (.text v.name) <| .field (roundTrips_real.fits _ lower) <|
      .field (roundTrips_bound.fits _ upper) .empty
  proper j :=
    .bind .any fun _ _ => .bind .any fun _ _ =>
      .bind (roundTrips_real.optional? FiniteDefaults.zero) fun _ lower =>
      .bind (roundTrips_bound.optional? allFinite_nil) fun _ upper =>
      .pure ((allFinite_cons ..).mpr ⟨lower, upper⟩)

end Variable

namespace Draft

/-- The form in which a draft is written. -/
def schema : Schema :=
  .record
    [("variables", .list Variable.schema), ("objective", DraftObjective.schema),
      ("constraints", .list DraftConstraint.schema)]

theorem allFinite_numbers (d : Draft α) : AllFinite d.numbers ↔
    (∀ v ∈ d.vars, AllFinite v.numbers) ∧ AllFinite d.objective.numbers ∧
      ∀ c ∈ d.constraints, AllFinite c.numbers := by
  rw [numbers, allFinite_append, allFinite_append, allFinite_flatMap, allFinite_flatMap]

theorem roundTrips [FiniteDefaults α] :
    RoundTrips (α := α) schema toJson ofJson? fun d => AllFinite d.numbers where
  back d finite := by
    obtain ⟨distinct, fields⟩ : Finds shape (toJson d) _ := finds_written (by decide) rfl
    obtain ⟨vars, objective, constraints⟩ := (allFinite_numbers d).mp finite
    exact bind_eq_some fields <|
      bind_eq_some (Variable.roundTrips.list.required?_back distinct 0 rfl vars) <|
      bind_eq_some (DraftObjective.roundTrips.required?_back distinct 1 rfl objective) <|
      bind_eq_some (DraftConstraint.roundTrips.list.optional?_back distinct 2 rfl constraints) rfl
  fits d finite := by
    obtain ⟨vars, objective, constraints⟩ := (allFinite_numbers d).mp finite
    exact .field (Variable.roundTrips.list.fits _ vars) <|
      .field (DraftObjective.roundTrips.fits _ objective) <|
      .field (DraftConstraint.roundTrips.list.fits _ constraints) .empty
  proper j :=
    .bind .any fun _ _ => .bind Variable.roundTrips.list.required? fun _ vars =>
      .bind DraftObjective.roundTrips.required? fun _ objective =>
      .bind (DraftConstraint.roundTrips.list.optional? (List.forall_mem_nil _)) fun _ constraints =>
      .pure ((allFinite_numbers _).mpr ⟨vars, objective, constraints⟩)

end Draft

/-! ## Changes -/

namespace Change

/-- The form in which a change of one kind is written. -/
def kindSchema (kind : String) (fields : List (String × Schema)) : Schema :=
  .record ((kindName, .word [kind]) :: fields)

/-- The forms in which changes are written, one for each kind. -/
def kinds : List Schema :=
  [kindSchema "objective_coefficient" [("variable", .text), ("value", .number)],
    kindSchema "scale_objective_coefficient" [("variable", .text), ("factor", .number)],
    kindSchema "coefficient" [("constraint", .text), ("variable", .text), ("value", .number)],
    kindSchema "scale_constraint" [("constraint", .text), ("factor", .number)],
    kindSchema "limit" [("constraint", .text), ("value", .number)],
    kindSchema "scale_limit" [("constraint", .text), ("factor", .number)],
    kindSchema "shift_limit" [("constraint", .text), ("delta", .number)],
    kindSchema "upper_bound" [("variable", .text), ("value", .optional .number)]]

/-- The form in which a change is written. -/
def schema : Schema := .oneOf kinds

theorem fits_kind {kind : String} {fields : List (String × Schema)} {members : List (String × Json α)}
    (known : kindSchema kind fields ∈ kinds) (fits : Fits (.record fields) (.obj members)) :
    Fits schema (.obj ((kindName, .str kind) :: members)) :=
  .oneOf known (.field (.word (List.mem_singleton.mpr rfl)) fits)

omit [Scalar α] in
/-- The member that names the kind is left out of account when the other members are read. -/
theorem record?_kind {shape : List (List String)} {kind : String} {members : List (String × Json α)}
    (distinct : Distinct shape) (names : members.map (·.1) = shape.map ownName)
    (other : kindName ∉ shape.flatten) :
    (Json.obj ((kindName, .str kind) :: members)).record? shape = some members :=
  record?_obj distinct [(kindName, .str kind)] names fun d hd => by
    obtain rfl := List.mem_singleton.mp hd
    exact other

omit [Scalar α] in
/-- An object that names its kind once is a change of that kind. -/
theorem ofJson?_kind (number? : Json α → Option α) (kind : String) {members : List (String × Json α)}
    (once : kindName ∉ members.map (·.1)) : ofJson? number? (.obj ((kindName, .str kind) :: members)) =
      ofMembers? number? kind (.obj ((kindName, .str kind) :: members)) := by
  have none : members.filter (·.1 == kindName) = [] :=
    List.filter_eq_nil_iff.mpr fun m hm equal => once (eq_of_beq equal ▸ List.mem_map_of_mem hm)
  rw [ofJson?, List.filter_cons, if_pos (beq_self_eq_true _), none]

/-- Whatever the kind, the number of a change is read from one of its members. -/
theorem yields_ofMembers? (kind : String) (members : Json α) :
    Yields (fun c => AllFinite c.numbers) (ofMembers? real? kind members) := by
  have number {x : α} (finite : Scalar.isFinite x = true) : AllFinite [x] := (allFinite_singleton x).mpr finite
  unfold ofMembers?
  split
  case h_3 =>
    exact .bind .any fun _ _ => .bind .any fun _ _ => .bind .any fun _ _ =>
      .bind roundTrips_real.required? fun _ value => .pure (number value)
  case h_8 =>
    have bound (fields : Fields α) : Yields (fun x => AllFinite x.toList) (bound? real? members fields) := by
      unfold bound?
      split
      · exact roundTrips_bound.required?
      · exact roundTrips_bound.optional? allFinite_nil
    exact .bind .any fun fields _ => .bind .any fun _ _ => .bind (bound fields) fun _ value => .pure value
  case h_9 => exact fun c read => nomatch read
  all_goals
    exact .bind .any fun _ _ => .bind .any fun _ _ =>
      .bind roundTrips_real.required? fun _ value => .pure (number value)

theorem roundTrips : RoundTrips (α := α) schema toJson (ofJson? real?) fun c => AllFinite c.numbers where
  back c finite := by
    cases c with
    | coefficient label name value =>
      have number := (allFinite_singleton _).mp finite
      rw [toJson, ofJson?_kind _ _ (by simp [kindName])]
      exact bind_eq_some (record?_kind (by decide) rfl (by decide)) <|
        bind_eq_some (roundTrips_str.required?_back (by simp) 0 rfl trivial) <|
        bind_eq_some (roundTrips_str.required?_back (by simp) 1 rfl trivial) <|
        bind_eq_some (roundTrips_real.required?_back (by simp) 2 rfl number) rfl
    | upperBound name value =>
      have bound : Fields.optional? [("variable", .str name), ("value", ofOption ofReal value)] "value" none
          (option? real?) = some value := roundTrips_bound.optional?_back (by simp) 1 rfl finite
      rw [toJson, ofJson?_kind _ _ (by simp [kindName])]
      exact bind_eq_some (record?_kind (by decide) rfl (by decide)) <|
        bind_eq_some (roundTrips_str.required?_back (by simp) 0 rfl trivial) <|
        bind_eq_some bound rfl
    | _ =>
      have number := (allFinite_singleton _).mp finite
      rw [toJson, ofJson?_kind _ _ (by simp [kindName])]
      exact bind_eq_some (record?_kind (by decide) rfl (by decide)) <|
        bind_eq_some (roundTrips_str.required?_back (by simp) 0 rfl trivial) <|
        bind_eq_some (roundTrips_real.required?_back (by simp) 1 rfl number) rfl
  fits c finite := by
    cases c with
    | upperBound name value =>
      exact fits_kind (by simp [kinds]) <|
        .field (.text name) <| .field (roundTrips_bound.fits value finite) .empty
    | coefficient label name value =>
      have number := roundTrips_real.fits value ((allFinite_singleton _).mp finite)
      exact fits_kind (by simp [kinds]) <|
        .field (.text label) <| .field (.text name) <| .field number .empty
    | _ =>
      have number := roundTrips_real.fits _ ((allFinite_singleton _).mp finite)
      exact fits_kind (by simp [kinds]) <| .field (.text _) <| .field number .empty
  proper j := by
    unfold ofJson?
    split
    · split
      · exact yields_ofMembers? _ _
      · exact fun c read => nomatch read
    · exact yields_ofMembers? _ _
    · exact fun c read => nomatch read

end Change

/-! ## Ready programs -/

namespace Ready

/-- The form in which a production plan is written. -/
def Production.schema : Schema := .record (shape.map fun names => (ownName names, .number))

theorem Production.roundTrips [FiniteDefaults α] :
    RoundTrips (α := α) Production.schema Production.toJson Production.ofJson? fun m => AllFinite m.numbers where
  back m finite := by
    obtain ⟨distinct, fields⟩ : Finds shape (toJson m) _ := finds_written (by decide) rfl
    exact bind_eq_some fields <| bind_eq_some (number distinct finite 0 rfl rfl) <|
      bind_eq_some (number distinct finite 1 rfl rfl) <|
      bind_eq_some (number distinct finite 2 rfl rfl) <|
      bind_eq_some (number distinct finite 3 rfl rfl) <|
      bind_eq_some (number distinct finite 4 rfl rfl) <|
      bind_eq_some (number distinct finite 5 rfl rfl) <|
      bind_eq_some (number distinct finite 6 rfl rfl) <|
      bind_eq_some (number distinct finite 7 rfl rfl) <|
      bind_eq_some (number distinct finite 8 rfl rfl) <|
      bind_eq_some (number distinct finite 9 rfl rfl) <|
      bind_eq_some (number distinct finite 10 rfl rfl) <|
      bind_eq_some (number distinct finite 11 rfl rfl) <| rfl
  fits m finite := fits_numbered (shape.map ownName) m.numbers rfl finite
  proper j := by
    have base := FiniteDefaults.production (α := α)
    simp only [numbers, allFinite_cons, allFinite_nil, and_true] at base
    obtain ⟨b₁, b₂, b₃, b₄, b₅, b₆, b₇, b₈, b₉, b₁₀, b₁₁, b₁₂⟩ := base
    exact .bind .any fun _ _ => .bind (roundTrips_real.optional? b₁) fun _ workers =>
      .bind (roundTrips_real.optional? b₂) fun _ hoursPerWorker =>
      .bind (roundTrips_real.optional? b₃) fun _ phoneHours =>
      .bind (roundTrips_real.optional? b₄) fun _ tabletHours =>
      .bind (roundTrips_real.optional? b₅) fun _ phoneMaterial =>
      .bind (roundTrips_real.optional? b₆) fun _ tabletMaterial =>
      .bind (roundTrips_real.optional? b₇) fun _ materialBudget =>
      .bind (roundTrips_real.optional? b₈) fun _ storageSpace =>
      .bind (roundTrips_real.optional? b₉) fun _ phoneSpace =>
      .bind (roundTrips_real.optional? b₁₀) fun _ tabletSpace =>
      .bind (roundTrips_real.optional? b₁₁) fun _ phoneProfit =>
      .bind (roundTrips_real.optional? b₁₂) fun _ tabletProfit =>
      .pure (by simp only [numbers, allFinite_cons, allFinite_nil, and_self, workers, hoursPerWorker,
        phoneHours, tabletHours, phoneMaterial, tabletMaterial, materialBudget, storageSpace,
        phoneSpace, tabletSpace, phoneProfit, tabletProfit])

/-- The form in which a question about a production plan is written. -/
def WhatIf.schema : Schema := .record (shape.map fun names => (ownName names, .number))

theorem WhatIf.roundTrips [FiniteDefaults α] :
    RoundTrips (α := α) WhatIf.schema WhatIf.toJson WhatIf.ofJson? fun w => AllFinite w.numbers where
  back w finite := by
    obtain ⟨distinct, fields⟩ : Finds shape (toJson w) _ := finds_written (by decide) rfl
    exact bind_eq_some fields <| bind_eq_some (number distinct finite 0 rfl rfl) <|
      bind_eq_some (number distinct finite 1 rfl rfl) <|
      bind_eq_some (number distinct finite 2 rfl rfl) <|
      bind_eq_some (number distinct finite 3 rfl rfl) <| rfl
  fits w finite := fits_numbered (shape.map ownName) w.numbers rfl finite
  proper j := by
    have zero := FiniteDefaults.zero (α := α)
    exact .bind .any fun _ _ => .bind (roundTrips_real.optional? zero) fun _ materialCost =>
      .bind (roundTrips_real.optional? zero) fun _ workers =>
      .bind (roundTrips_real.optional? zero) fun _ phoneProfit =>
      .bind (roundTrips_real.optional? zero) fun _ tabletProfit =>
      .pure (by simp only [numbers, allFinite_cons, allFinite_nil, and_self,
        materialCost, workers, phoneProfit, tabletProfit])

/-- The form in which a portfolio is written. -/
def Portfolio.schema : Schema := .record (shape.map fun names => (ownName names, .number))

theorem Portfolio.roundTrips [FiniteDefaults α] :
    RoundTrips (α := α) Portfolio.schema Portfolio.toJson Portfolio.ofJson? fun f => AllFinite f.numbers where
  back f finite := by
    obtain ⟨distinct, fields⟩ : Finds shape (toJson f) _ := finds_written (by decide) rfl
    exact bind_eq_some fields <| bind_eq_some (number distinct finite 0 rfl rfl) <|
      bind_eq_some (number distinct finite 1 rfl rfl) <|
      bind_eq_some (number distinct finite 2 rfl rfl) <|
      bind_eq_some (number distinct finite 3 rfl rfl) <|
      bind_eq_some (number distinct finite 4 rfl rfl) <|
      bind_eq_some (number distinct finite 5 rfl rfl) <| rfl
  fits f finite := fits_numbered (shape.map ownName) f.numbers rfl finite
  proper j := by
    have base := FiniteDefaults.portfolio (α := α)
    simp only [numbers, allFinite_cons, allFinite_nil, and_true] at base
    obtain ⟨b₁, b₂, b₃, b₄, b₅, b₆⟩ := base
    exact .bind .any fun _ _ => .bind (roundTrips_real.optional? b₁) fun _ equityReturn =>
      .bind (roundTrips_real.optional? b₂) fun _ bondReturn =>
      .bind (roundTrips_real.optional? b₃) fun _ depositReturn =>
      .bind (roundTrips_real.optional? b₄) fun _ maxEquity =>
      .bind (roundTrips_real.optional? b₅) fun _ minBonds =>
      .bind (roundTrips_real.optional? b₆) fun _ minDeposits =>
      .pure (by simp only [numbers, allFinite_cons, allFinite_nil, and_self,
        equityReturn, bondReturn, depositReturn, maxEquity, minBonds, minDeposits])

end Ready

/-! ## Settings -/

namespace SolverSettings

/-- The form in which the settings of the simplex method are written. -/
def schema : Schema :=
  .record [("max_iterations", .count), ("pivot_tolerance", .number), ("binding_tolerance", .number)]

/-- Settings with finite tolerances and a count that fits a machine word. -/
def Proper (s : SolverSettings α) : Prop := s.maxPivots < 2 ^ 64 ∧ AllFinite s.numbers

theorem roundTrips [FiniteDefaults α] : RoundTrips (α := α) schema toJson ofJson? Proper where
  back s proper := by
    obtain ⟨distinct, fields⟩ : Finds shape (toJson s) _ := finds_written (by decide) rfl
    obtain ⟨small, finite⟩ := proper
    simp only [numbers, allFinite_cons, allFinite_nil, and_true] at finite
    exact bind_eq_some fields <|
      bind_eq_some (roundTrips_word64.optional?_back distinct 0 rfl small) <|
      bind_eq_some (roundTrips_real.optional?_back distinct 1 rfl finite.1) <|
      bind_eq_some (roundTrips_real.optional?_back distinct 2 rfl finite.2) rfl
  fits s proper := .field (.count s.maxPivots)
    (fits_numbered ["pivot_tolerance", "binding_tolerance"] s.numbers rfl proper.2)
  proper j := by
    have base := FiniteDefaults.solver (α := α)
    simp only [numbers, allFinite_cons, allFinite_nil, and_true] at base
    obtain ⟨b₁, b₂⟩ := base
    exact .bind .any fun _ _ => .bind (roundTrips_word64.optional? (by simp [default])) fun _ small =>
      .bind (roundTrips_real.optional? b₁) fun _ pivot => .bind (roundTrips_real.optional? b₂) fun _ binding =>
      .pure ⟨small, by simp only [numbers, allFinite_cons, pivot, binding, allFinite_nil, and_self]⟩

end SolverSettings

namespace RoundingSettings

/-- The form in which the settings of the search for whole units are written. -/
def schema : Schema := .record [("search_radius", .count), ("max_candidates", .count)]

/-- Settings whose count fits a machine word. -/
def Proper (s : RoundingSettings) : Prop := s.maxCandidates < 2 ^ 64

theorem roundTrips : RoundTrips (α := α) schema toJson ofJson? Proper where
  back s small := by
    obtain ⟨distinct, fields⟩ : Finds (α := α) shape (toJson s) _ := finds_written (by decide) rfl
    exact bind_eq_some fields <|
      bind_eq_some (roundTrips_word32.optional?_back distinct 0 rfl trivial) <|
      bind_eq_some (roundTrips_word64.optional?_back distinct 1 rfl small) rfl
  fits s _ := .field (.count s.searchRadius.toNat) <| .field (.count s.maxCandidates) .empty
  proper j :=
    .bind .any fun _ _ => .bind .any fun _ _ =>
      .bind (roundTrips_word64.optional? (by simp [default])) fun _ small => .pure small

end RoundingSettings

namespace PricingSettings

/-- The form in which the settings of the pricing of constraints are written. -/
def schema : Schema := .record [("finite_difference", .flag), ("step", .number)]

theorem roundTrips [FiniteDefaults α] :
    RoundTrips (α := α) schema toJson ofJson? fun s => AllFinite s.numbers where
  back s finite := by
    obtain ⟨distinct, fields⟩ : Finds shape (toJson s) _ := finds_written (by decide) rfl
    exact bind_eq_some fields <|
      bind_eq_some (roundTrips_bool.optional?_back distinct 0 rfl trivial) <|
      bind_eq_some (roundTrips_real.optional?_back distinct 1 rfl ((allFinite_singleton _).mp finite)) rfl
  fits s finite := .field (.flag s.finiteDifference) (fits_numbered ["step"] s.numbers rfl finite)
  proper j := by
    have base := (allFinite_singleton _).mp (FiniteDefaults.pricing (α := α))
    exact .bind .any fun _ _ => .bind .any fun _ _ =>
      .bind (roundTrips_real.optional? base) fun _ step => .pure ((allFinite_singleton _).mpr step)

end PricingSettings

/-! ## All of them -/

/-- **A kind of record that survives being written and read.** -/
structure Survives {β : Type} (schema : Schema) (write : β → Json α) (read? : Json α → Option β)
    (Proper : β → Prop) : Prop where
  /-- What is written is read back as the same value. -/
  back : ∀ x, Proper x → read? (write x) = some x
  /-- Whatever is read, in whatever spelling, is written in the one form of the schema, and what is
  written is read as the same value again. -/
  again : ∀ j x, read? j = some x → Fits schema (write x) ∧ read? (write x) = some x

theorem Json.RoundTrips.survives {β : Type} {schema : Schema} {write : β → Json α}
    {read? : Json α → Option β} {Proper : β → Prop} (h : RoundTrips schema write read? Proper) :
    Survives schema write read? Proper :=
  ⟨h.back, fun _ _ => h.again⟩

/-- **The records that survive**, among the values whose numbers are finite and whose counts fit a
machine word. -/
structure RecordsSurvive (α : Type) [Scalar α] : Prop where
  draft : Survives Draft.schema Draft.toJson Draft.ofJson? fun d : Draft α => AllFinite d.numbers
  changes : Survives (.list Change.schema) (ofList Change.toJson) (list? (Change.ofJson? real?))
    fun cs : List (Change α) => ∀ c ∈ cs, AllFinite c.numbers
  production : Survives Ready.Production.schema Ready.Production.toJson Ready.Production.ofJson?
    fun m : Ready.Production α => AllFinite m.numbers
  whatIf : Survives Ready.WhatIf.schema Ready.WhatIf.toJson Ready.WhatIf.ofJson?
    fun w : Ready.WhatIf α => AllFinite w.numbers
  portfolio : Survives Ready.Portfolio.schema Ready.Portfolio.toJson Ready.Portfolio.ofJson?
    fun f : Ready.Portfolio α => AllFinite f.numbers
  solver : Survives SolverSettings.schema (SolverSettings.toJson (α := α)) SolverSettings.ofJson?
    SolverSettings.Proper
  rounding : Survives RoundingSettings.schema (RoundingSettings.toJson (α := α)) RoundingSettings.ofJson?
    RoundingSettings.Proper
  pricing : Survives PricingSettings.schema PricingSettings.toJson PricingSettings.ofJson?
    fun s : PricingSettings α => AllFinite s.numbers

/-- **Every record survives being written and read**, over each number system in which the defaults
are finite. -/
theorem records_survive [FiniteDefaults α] : RecordsSurvive α where
  draft := Draft.roundTrips.survives
  changes := Change.roundTrips.list.survives
  production := Ready.Production.roundTrips.survives
  whatIf := Ready.WhatIf.roundTrips.survives
  portfolio := Ready.Portfolio.roundTrips.survives
  solver := SolverSettings.roundTrips.survives
  rounding := RoundingSettings.roundTrips.survives
  pricing := PricingSettings.roundTrips.survives

/-- A draft in a lenient spelling: with an unknown member, second names of a field, a sense and a
relation, a whole number for a real, members left out and a constraint as a list. -/
def lenient : Json Float :=
  .obj
    [("remark", .null),
      ("constraints", .arr [.arr [.str "only", .obj [("x", .int 1)], .str "le", .real 2.5]]),
      ("objective", .obj [("direction", .str "maximize")]),
      ("variables", .arr [.obj [("upperBound", .null), ("name", .str "x")]])]

/-- The draft that it spells. -/
def spelled : Draft Float where
  vars := [⟨"x", 0, none⟩]
  objective := ⟨.maximize, .empty⟩
  constraints := [⟨"only", .ofList [("x", 1)], .atMost, 2.5⟩]

theorem records_survive_lenient : RecordsSurvive Float ∧ Draft.ofJson? lenient = some spelled ∧
    Fits Draft.schema spelled.toJson ∧ Draft.ofJson? spelled.toJson = some spelled := by
  have read : Draft.ofJson? lenient = some spelled := by decide +kernel
  exact ⟨records_survive, read, records_survive.draft.again lenient spelled read⟩

end Allotment
