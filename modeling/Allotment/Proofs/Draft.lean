import Allotment.Proofs.Binary64
import Allotment.Proofs.WellFormed
import Allotment.Draft

/-!
# Which drafts are accepted, and as what

`Draft.program` resolves names before it checks numbers, and looks for some flaws in more than one
place. Here all flaws of a draft are listed, in the order in which they count (`Draft.flaws`): what is
reported is the first of them, and without one the draft is accepted as the program in which every
variable has the coefficient that its name stands for (`program_faithful`). A draft has no flaws when it is
`Draft.WellFormed`, which says nothing about an order.
-/

namespace Allotment
set_option autoImplicit false

/-! ## Refusing for the first of several flaws -/

section Refusal

variable {α β γ : Type}

/-- The value, unless there are flaws: then the first of them. -/
def unlessFlawed (flaws : List (Flaw α)) (value : β) : Except (Flaw α) β :=
  match flaws.head? with
  | none => .ok value
  | some flaw => .error flaw

/-- A flaw, if a test finds it. -/
def flawIf (found : Bool) (flaw : Flaw α) : List (Flaw α) := if found then [flaw] else []

/-- **Checks one after the other** report the first flaw of all. -/
theorem unlessFlawed_bind {flaws flaws' : List (Flaw α)} {b : β} {c : γ}
    {f : β → Except (Flaw α) γ} (next : flaws = [] → f b = unlessFlawed flaws' c) :
    (unlessFlawed flaws b >>= f) = unlessFlawed (flaws ++ flaws') c := by
  cases flaws with
  | nil => exact next rfl
  | cons flaw flaws => rfl

theorem unlessFlawed_map (flaws : List (Flaw α)) (b : β) (f : β → γ) :
    (unlessFlawed flaws b >>= fun x => pure (f x)) = unlessFlawed flaws (f b) := by
  cases flaws <;> rfl

/-- A check of every element reports the first flaw of the first that has one. -/
theorem mapM_eq_unlessFlawed {f : β → Except (Flaw α) γ} {flaws : β → List (Flaw α)} {value : β → γ}
    (each : ∀ b, f b = unlessFlawed (flaws b) (value b)) (bs : List β) :
    bs.mapM f = unlessFlawed (bs.flatMap flaws) (bs.map value) := by
  induction bs with
  | nil => rfl
  | cons b bs ih =>
    rw [List.mapM_cons, each, List.flatMap_cons]
    refine unlessFlawed_bind fun _ => ?_
    rw [ih]
    exact unlessFlawed_map _ _ _

theorem head?_flawIf (found : Bool) (flaw : Flaw α) :
    (flawIf found flaw).head? = if found then some flaw else none := by
  cases found <;> rfl

theorem flawIf_eq_nil {found : Bool} {flaw : Flaw α} : flawIf found flaw = [] ↔ found = false := by
  cases found <;> simp [flawIf]

end Refusal

/-! ## Repetitions -/

section Repetitions

variable {β : Type}

/-- Each element of a list with those before it. -/
def withEarlier (xs : List β) : List (List β × β) := xs.inits.zip xs

theorem withEarlier_cons (x : β) (xs : List β) :
    withEarlier (x :: xs) = ([], x) :: (withEarlier xs).map fun e => (x :: e.1, e.2) := by
  rw [withEarlier, List.inits_cons, List.zip_cons_cons, List.zip_map_left]
  rfl

theorem map_snd_withEarlier (xs : List β) : (withEarlier xs).map Prod.snd = xs :=
  List.map_snd_zip (by simp)

theorem forall_snd_withEarlier (xs : List β) {P : β → Prop} :
    (∀ e ∈ withEarlier xs, P e.2) ↔ ∀ x ∈ xs, P x := by
  conv_rhs => rw [← map_snd_withEarlier xs]
  exact List.forall_mem_map.symm

/-- There are no duplicates where no element repeats an earlier one. -/
theorem forall_withEarlier_iff (key : β → String) (xs : List β) :
    (∀ e ∈ withEarlier xs, key e.2 ∉ e.1.map key) ↔ (xs.map key).Nodup := by
  induction xs with
  | nil => simp [withEarlier]
  | cons x xs ih =>
    have first : (∀ e ∈ withEarlier xs, key e.2 ≠ key x) ↔ key x ∉ xs.map key := by
      rw [forall_snd_withEarlier xs (P := (key · ≠ key x)), List.mem_map]
      push Not
      rfl
    rw [withEarlier_cons, List.forall_mem_cons, List.forall_mem_map, List.map_cons, List.nodup_cons,
      ← first, ← ih, ← forall₂_and]
    simp only [List.map_nil, List.not_mem_nil, not_false_eq_true, true_and, List.map_cons,
      List.mem_cons, not_or]

/-- A search that keeps what it has seen looks at each element with those before it. -/
theorem firstRepeated?_eq (seen names : List String) :
    firstRepeated? seen names =
      ((withEarlier names).find? fun e => e.2 ∈ seen ++ e.1).map (·.2) := by
  induction names generalizing seen with
  | nil => rfl
  | cons name names ih =>
    rw [firstRepeated?, withEarlier_cons, List.find?_cons]
    by_cases repeated : name ∈ seen
    · simp [repeated]
    · -- a name put in front of those before an element may as well be put among those seen
      have same : ((fun e : List String × String => decide (e.2 ∈ seen ++ e.1)) ∘
          fun e : List String × String => (name :: e.1, e.2)) =
            fun e => decide (e.2 ∈ name :: seen ++ e.1) := by
        funext e
        simp only [Function.comp_apply, List.mem_append, List.mem_cons]
        exact decide_eq_decide.mpr (by tauto)
      simp only [repeated, if_false, List.append_nil, decide_false, ih, List.find?_map, same,
        Option.map_map]
      rfl

end Repetitions

variable {α : Type} [Scalar α]

/-! ## The flaws of a draft, and the program it describes -/

/-- What is wrong with the bounds of a variable. -/
def Variable.boundsFlaws (v : Variable α) : List (Flaw α) :=
  flawIf (!Scalar.isFinite v.lower) (.nonFinite (.lowerBound v.name)) ++
  (flawIf (decide (v.lower < 0)) (.negativeLowerBound v.name v.lower) ++
  v.upper.toList.flatMap fun upper =>
    flawIf (!Scalar.isFinite upper) (.nonFinite (.upperBound v.name)) ++
    flawIf (decide (upper < v.lower)) (.invertedBounds v.name v.lower upper))

namespace Draft

/-- The coefficient of each variable: the entry of its name, or zero. -/
def dense (d : Draft α) (m : NameMap α) : List α := d.names.map fun name => (m.find? name).getD 0

/-- The names, in their order, that no variable has. -/
def undeclared (d : Draft α) (place : Place) (m : NameMap α) : List (Flaw α) :=
  (m.names.filter (· ∉ d.names)).map (.unknownVariable place)

/-- The coefficients, in the order of the variables, that are not finite. -/
def nonFinite (d : Draft α) (place : Place) (m : NameMap α) : List (Flaw α) :=
  (d.names.filter fun name => !Scalar.isFinite ((m.find? name).getD 0)).map fun name =>
    .nonFinite (.coefficient place name)

/-- What is wrong with a constraint after those with these labels. -/
def constraintFlaws (d : Draft α) (labels : List String) (c : DraftConstraint α) : List (Flaw α) :=
  flawIf (decide (c.label ∈ labels)) (.duplicateConstraint c.label) ++
  (d.nonFinite (.constraint c.label) c.coefficients ++
  flawIf (!Scalar.isFinite c.limit) (.nonFinite (.limit c.label)))

/-- What is wrong with a draft whose names are in order. -/
def numberFlaws (d : Draft α) : List (Flaw α) :=
  flawIf d.vars.isEmpty .noVariables ++
  (d.vars.flatMap Variable.boundsFlaws ++
  (d.nonFinite .objective d.objective.coefficients ++
  (withEarlier d.constraints).flatMap fun e => d.constraintFlaws (e.1.map (·.label)) e.2))

/-- **All flaws of a draft**, in the order in which they count. -/
def flaws (d : Draft α) : List (Flaw α) :=
  ((withEarlier d.names).filter fun e => e.2 ∈ e.1).map (fun e => .duplicateVariable e.2) ++
  (d.undeclared .objective d.objective.coefficients ++
  (d.constraints.flatMap (fun c => d.undeclared (.constraint c.label) c.coefficients) ++
  d.numberFlaws))

/-- A constraint with one coefficient per variable. -/
def denseConstraint (d : Draft α) (c : DraftConstraint α) : Constraint α where
  label := c.label
  coefficients := d.dense c.coefficients
  relation := c.relation
  limit := c.limit

/-- **The program that a draft describes**, well formed or not. -/
def denseProgram (d : Draft α) : Program α where
  vars := d.vars
  objective :=
    { sense := d.objective.sense, coefficients := d.dense d.objective.coefficients }
  constraints := d.constraints.map d.denseConstraint

variable (d : Draft α)

theorem resolve_eq (place : Place) (m : NameMap α) :
    resolve d.names place m = unlessFlawed (d.undeclared place m) (d.dense m) := by
  rw [resolve, ← List.head?_filter, unlessFlawed, undeclared, List.head?_map]
  cases (m.names.filter (· ∉ d.names)).head? <;> rfl

theorem resolve_constraint_eq (c : DraftConstraint α) : c.resolve d.names =
    unlessFlawed (d.undeclared (.constraint c.label) c.coefficients) (d.denseConstraint c) := by
  rw [DraftConstraint.resolve, d.resolve_eq]
  exact unlessFlawed_map _ _ _

end Draft

/-! ## The checks of a program, as searches for its flaws -/

theorem Variable.boundsFlaw?_eq (v : Variable α) : v.boundsFlaw? = v.boundsFlaws.head? := by
  rw [boundsFlaw?, boundsFlaws, List.head?_append, List.head?_append, head?_flawIf, head?_flawIf]
  cases v.upper with
  | none =>
    split_ifs <;> simp_all
  | some upper =>
    simp only [Option.toList_some, List.flatMap_singleton, List.head?_append, head?_flawIf]
    split_ifs <;> simp_all

theorem variablesFlaw?_eq {seen : List String} {vs : List (Variable α)}
    (fresh : ∀ v ∈ vs, v.name ∉ seen) (unique : (vs.map (·.name)).Nodup) :
    variablesFlaw? seen vs = (vs.flatMap Variable.boundsFlaws).head? := by
  induction vs generalizing seen with
  | nil => rfl
  | cons v vs ih =>
    obtain ⟨here, rest⟩ := List.forall_mem_cons.mp fresh
    obtain ⟨new, unique⟩ := List.nodup_cons.mp unique
    have still : ∀ w ∈ vs, w.name ∉ v.name :: seen := by
      intro w hw
      have other : w.name ≠ v.name := fun same =>
        new (List.mem_map.mpr ⟨w, hw, same⟩)
      exact List.not_mem_cons_of_ne_of_not_mem other (rest w hw)
    rw [variablesFlaw?, if_neg here, List.flatMap_cons, List.head?_append, ← v.boundsFlaw?_eq,
      ih still unique, Option.orElse_eq_orElse, Option.orElse_eq_or]

namespace Draft

variable (d : Draft α)

theorem coefficientsFlaw?_eq (place : Place) (m : NameMap α) :
    coefficientsFlaw? place d.names (d.dense m) = (d.nonFinite place m).head? := by
  have length : (d.dense m).length = d.names.length := List.length_map _
  rw [coefficientsFlaw?, if_neg (not_not.mpr length), dense, ← List.map_prod_left_eq_zip,
    List.find?_map, Option.map_map, nonFinite, List.head?_map, List.head?_filter]
  rfl

theorem constraintsFlaw?_eq (seen : List String) (cs : List (DraftConstraint α)) :
    constraintsFlaw? d.names seen (cs.map d.denseConstraint) =
      ((withEarlier cs).flatMap fun e =>
        d.constraintFlaws (seen ++ e.1.map (·.label)) e.2).head? := by
  induction cs generalizing seen with
  | nil => rfl
  | cons c cs ih =>
    -- for the constraints that follow, this one is seen as well as earlier
    have moved : ∀ e : List (DraftConstraint α) × DraftConstraint α,
        d.constraintFlaws (c.label :: seen ++ e.1.map (·.label)) e.2 =
          d.constraintFlaws (seen ++ (c :: e.1).map (·.label)) e.2 := by
      intro e
      have same : e.2.label ∈ c.label :: seen ++ e.1.map (·.label) ↔
          e.2.label ∈ seen ++ (c :: e.1).map (·.label) := by
        simp only [List.map_cons, List.mem_append, List.mem_cons]
        tauto
      rw [constraintFlaws, constraintFlaws, decide_eq_decide.mpr same]
    have here : (flawIf (!Scalar.isFinite c.limit) (Flaw.nonFinite (.limit c.label) : Flaw α)).head? =
        if Scalar.isFinite c.limit = true then none else some (.nonFinite (.limit c.label)) := by
      rw [head?_flawIf]
      cases Scalar.isFinite c.limit <;> rfl
    rw [List.map_cons, constraintsFlaw?, withEarlier_cons, List.flatMap_cons, List.flatMap_map,
      List.head?_append, constraintFlaws, List.map_nil, List.append_nil, List.head?_append,
      List.head?_append, head?_flawIf, here]
    simp only [← moved, ← ih, denseConstraint, coefficientsFlaw?_eq, Option.orElse_eq_orElse,
      Option.orElse_eq_or]
    by_cases repeated : c.label ∈ seen
    · simp [repeated]
    · simp only [repeated, if_false, decide_false, Bool.false_eq_true, Option.none_or,
        Option.or_assoc]
      rfl

theorem flaw?_denseProgram (unique : d.names.Nodup) :
    d.denseProgram.flaw? = d.numberFlaws.head? := by
  have bounds : variablesFlaw? [] d.vars = (d.vars.flatMap Variable.boundsFlaws).head? :=
    variablesFlaw?_eq (fun v _ => List.not_mem_nil) unique
  have objective := d.coefficientsFlaw?_eq .objective d.objective.coefficients
  have constraints := d.constraintsFlaw?_eq [] d.constraints
  simp only [List.nil_append] at constraints
  rw [numberFlaws, List.head?_append, List.head?_append, List.head?_append, head?_flawIf, ← bounds,
    ← objective, ← constraints, Program.flaw?]
  simp only [Option.orElse_eq_orElse, Option.orElse_eq_or]
  cases empty : d.vars.isEmpty with
  | true => simp [denseProgram, empty]
  | false => simp [denseProgram, empty, Program.names, names]

theorem checked_denseProgram (unique : d.names.Nodup) :
    d.denseProgram.checked = unlessFlawed d.numberFlaws d.denseProgram := by
  rw [Program.checked, d.flaw?_denseProgram unique]
  cases d.numberFlaws <;> rfl

omit [Scalar α] in
theorem nodup_names_iff :
    d.names.Nodup ↔ ((withEarlier d.names).filter fun e => e.2 ∈ e.1) = [] := by
  have unique := forall_withEarlier_iff id d.names
  simp only [List.map_id, id_eq] at unique
  rw [← unique, List.filter_eq_nil_iff]
  simp only [decide_eq_true_eq]

/-- **A draft is accepted as the program it describes, or refused for the first of its flaws.** -/
theorem program_eq_unlessFlawed : d.program = unlessFlawed d.flaws d.denseProgram := by
  have repeated : firstRepeated? [] d.names =
      ((withEarlier d.names).filter fun e => e.2 ∈ e.1).head?.map (·.2) := by
    rw [firstRepeated?_eq, List.head?_filter]
    rfl
  rw [program, repeated, flaws]
  cases repetitions : (withEarlier d.names).filter fun e => e.2 ∈ e.1 with
  | cons e rest => rfl
  | nil =>
    -- the check of the program looks for repeated names again, and finds none
    have unique := d.nodup_names_iff.mpr repetitions
    simp only [List.head?_nil, Option.map_none, List.map_nil, List.nil_append]
    rw [d.resolve_eq]
    refine unlessFlawed_bind fun _ => ?_
    rw [mapM_eq_unlessFlawed d.resolve_constraint_eq]
    exact unlessFlawed_bind fun _ => d.checked_denseProgram unique

end Draft

/-! ## Which drafts have no flaws -/

namespace NameMap

variable {β : Type} {m : NameMap β}

theorem find?_of_mem {e : String × β} (h : e ∈ m.entries) : m.find? e.1 = some e.2 := by
  have found : ∀ entries : List (String × β), (entries.Pairwise fun a b => a.1 < b.1) →
      e ∈ entries → entries.find? (·.1 == e.1) = some e := by
    intro entries sorted mem
    induction entries with
    | nil => cases mem
    | cons first rest ih =>
      obtain ⟨least, sorted⟩ := List.pairwise_cons.mp sorted
      obtain rfl | later := List.mem_cons.mp mem
      · exact List.find?_cons_of_pos (beq_self_eq_true _)
      · have other : ¬(first.1 == e.1) = true := fun same =>
          String.lt_irrefl e.1 (eq_of_beq same ▸ least e later)
        rw [List.find?_cons_of_neg (p := fun x : String × β => x.1 == e.1) other, ih sorted later]
  rw [find?, found m.entries m.sorted h, Option.map_some]

theorem mem_of_find? {name : String} {b : β} (h : m.find? name = some b) : (name, b) ∈ m.entries := by
  obtain ⟨e, found, rfl⟩ := Option.map_eq_some_iff.mp h
  obtain rfl : e.1 = name := eq_of_beq
    (List.find?_some (p := fun x : String × β => x.1 == name) found)
  exact List.mem_of_find?_eq_some found

end NameMap

/-- A map of finite coefficients for variables of these names. -/
def NameMap.Fits (names : List String) (m : NameMap α) : Prop :=
  ∀ e ∈ m.entries, e.1 ∈ names ∧ Scalar.isFinite e.2 = true

namespace Draft

/-- **Well-formed drafts**, without an order in which flaws are looked for. -/
structure WellFormed (d : Draft α) : Prop where
  nonempty : d.vars ≠ []
  names : d.names.Nodup
  lower : ∀ v ∈ d.vars, Scalar.isFinite v.lower = true ∧ 0 ≤ v.lower
  upper : ∀ v ∈ d.vars, ∀ u ∈ v.upper, Scalar.isFinite u = true ∧ v.lower ≤ u
  objective : d.objective.coefficients.Fits d.names
  constraints : ∀ c ∈ d.constraints, c.coefficients.Fits d.names
  limits : ∀ c ∈ d.constraints, Scalar.isFinite c.limit = true
  labels : (d.constraints.map (·.label)).Nodup

variable {d : Draft α}

omit [Scalar α] in
theorem undeclared_eq_nil {place : Place} {m : NameMap α} :
    d.undeclared place m = [] ↔ ∀ e ∈ m.entries, e.1 ∈ d.names := by
  rw [undeclared, List.map_eq_nil_iff, List.filter_eq_nil_iff, NameMap.names, List.forall_mem_map]
  simp only [decide_eq_true_eq, not_not]

theorem nonFinite_eq_nil {place : Place} {m : NameMap α} : d.nonFinite place m = [] ↔
    ∀ name ∈ d.names, Scalar.isFinite ((m.find? name).getD 0) = true := by
  rw [nonFinite, List.map_eq_nil_iff, List.filter_eq_nil_iff]
  simp only [Bool.not_eq_true', Bool.not_eq_false]

variable [FiniteOrder α]

/-- A map fits when its names are declared and what is made of it is finite. -/
theorem fits_iff (place place' : Place) {m : NameMap α} :
    m.Fits d.names ↔ d.undeclared place m = [] ∧ d.nonFinite place' m = [] := by
  rw [undeclared_eq_nil, nonFinite_eq_nil]
  constructor
  · intro fits
    refine ⟨fun e he => (fits e he).1, fun name _ => ?_⟩
    cases found : m.find? name with
    | none => exact FiniteOrder.isFinite_zero
    | some a => exact (fits _ (NameMap.mem_of_find? found)).2
  · rintro ⟨declared, finite⟩ e he
    have here := finite e.1 (declared e he)
    rw [NameMap.find?_of_mem he] at here
    exact ⟨declared e he, here⟩

theorem boundsFlaws_eq_nil (v : Variable α) : v.boundsFlaws = [] ↔
    (Scalar.isFinite v.lower = true ∧ 0 ≤ v.lower) ∧
      ∀ u ∈ v.upper, Scalar.isFinite u = true ∧ v.lower ≤ u := by
  rw [← List.head?_eq_none_iff, ← v.boundsFlaw?_eq, v.boundsFlaw?_eq_none_iff, Variable.proper_iff]

/-- **A draft is well formed when it has no flaws.** -/
theorem wellFormed_iff : d.WellFormed ↔ d.flaws = [] := by
  have constraints : ((withEarlier d.constraints).flatMap fun e =>
        d.constraintFlaws (e.1.map (·.label)) e.2) = [] ↔
      (d.constraints.map (·.label)).Nodup ∧
        (∀ c ∈ d.constraints, d.nonFinite (.constraint c.label) c.coefficients = []) ∧
        ∀ c ∈ d.constraints, Scalar.isFinite c.limit = true := by
    have every (P : DraftConstraint α → Prop) := forall_snd_withEarlier d.constraints (P := P)
    rw [← forall_withEarlier_iff, ← every, ← every, ← forall₂_and, ← forall₂_and,
      List.flatMap_eq_nil_iff]
    simp only [constraintFlaws, List.append_eq_nil_iff, flawIf_eq_nil, decide_eq_false_iff_not,
      Bool.not_eq_false']
  simp only [flaws, numberFlaws, List.append_eq_nil_iff, flawIf_eq_nil, constraints,
    List.map_eq_nil_iff, ← d.nodup_names_iff, List.flatMap_eq_nil_iff, boundsFlaws_eq_nil,
    List.isEmpty_eq_false_iff]
  constructor
  · intro h
    obtain ⟨declared, finite⟩ := (fits_iff .objective .objective).mp h.objective
    have fits c (hc : c ∈ d.constraints) :=
      (fits_iff (.constraint c.label) (.constraint c.label)).mp (h.constraints c hc)
    exact ⟨h.names, declared, fun c hc => (fits c hc).1, h.nonempty,
      fun v hv => ⟨h.lower v hv, h.upper v hv⟩, finite, h.labels, fun c hc => (fits c hc).2, h.limits⟩
  · rintro ⟨names, declared, declared', nonempty, bounds, finite, labels, finite', limits⟩
    exact
      { nonempty, names, limits, labels
        lower := fun v hv => (bounds v hv).1
        upper := fun v hv => (bounds v hv).2
        objective := (fits_iff _ _).mpr ⟨declared, finite⟩
        constraints := fun c hc => (fits_iff _ _).mpr ⟨declared' c hc, finite' c hc⟩ }

end Draft

/-! ## What the described program measures -/

/-- The value of a name is what its entries add up to: there is at most one. -/
theorem NameMap.getD_find?_eq_sum (m : NameMap ℚ) (name : String) :
    (m.find? name).getD 0 = (m.entries.map fun e => if e.1 = name then e.2 else 0).sum := by
  obtain ⟨entries, sorted⟩ := m
  simp only [NameMap.find?]
  induction entries with
  | nil => rfl
  | cons e entries ih =>
    obtain ⟨least, sorted⟩ := List.pairwise_cons.mp sorted
    rw [List.map_cons, List.sum_cons, List.find?_cons]
    by_cases here : e.1 = name
    · have others : (entries.map fun e => if e.1 = name then e.2 else 0).sum = 0 := by
        refine List.sum_eq_zero (List.forall_mem_map.mpr fun later mem => if_neg fun same => ?_)
        have less : e.1 < later.1 := least later mem
        rw [same, here] at less
        exact String.lt_irrefl name less
      simp only [here, beq_self_eq_true, Option.map_some, Option.getD_some, if_true, others, add_zero]
    · rw [if_neg here, zero_add, ← ih sorted, beq_eq_false_iff_ne.mpr here]

/-- **A dense row measures the entries of its map**, each at the value of the variable it names. -/
theorem dot_dense {names : List String} (unique : names.Nodup) (m : NameMap ℚ) (point : List ℚ) :
    dot (names.map fun name => (m.find? name).getD 0) point =
      (m.entries.map fun e =>
        if e.1 ∈ names then e.2 * point.getD (names.idxOf e.1) 0 else 0).sum := by
  induction names generalizing point with
  | nil => simp
  | cons name names ih =>
    obtain ⟨new, unique⟩ := List.nodup_cons.mp unique
    cases point with
    | nil => simp
    | cons x point =>
      rw [List.map_cons, dot_cons, ih unique, m.getD_find?_eq_sum, ← List.sum_map_mul_right,
        ← List.sum_map_add]
      congr 1
      refine List.map_congr_left fun e _ => ?_
      by_cases here : e.1 = name
      · simp [here, new]
      · simp [here, List.idxOf_cons_ne _ (Ne.symm here)]

namespace Draft

/-- What the entries of a map come to at a point, each at the quantity of the variable it names. -/
def measure (d : Draft ℚ) (m : NameMap ℚ) (point : List ℚ) : ℚ :=
  (m.entries.map fun e => e.2 * point.getD (d.names.idxOf e.1) 0).sum

theorem dot_dense_eq_measure {d : Draft ℚ} (unique : d.names.Nodup) {m : NameMap ℚ}
    (fits : m.Fits d.names) (point : List ℚ) : dot (d.dense m) point = d.measure m point := by
  rw [dense, dot_dense unique, measure]
  exact congrArg List.sum (List.map_congr_left fun e he => if_pos (fits e he).1)

theorem ok_iff [FiniteOrder α] {d : Draft α} {p : Program α} :
    d.program = .ok p ↔ d.WellFormed ∧ p = d.denseProgram := by
  rw [program_eq_unlessFlawed, wellFormed_iff]
  cases d.flaws with
  | nil =>
    refine ⟨fun ok => ⟨rfl, (Except.ok.inj ok).symm⟩, ?_⟩
    rintro ⟨-, rfl⟩
    rfl
  | cons flaw flaws => exact ⟨nofun, fun h => nomatch h.1⟩

theorem error_iff {d : Draft α} {flaw : Flaw α} :
    d.program = .error flaw ↔ d.flaws.head? = some flaw := by
  rw [program_eq_unlessFlawed]
  cases d.flaws with
  | nil => exact ⟨nofun, nofun⟩
  | cons first flaws =>
    exact ⟨fun error => congrArg some (Except.error.inj error),
      fun head => congrArg Except.error (Option.some.inj head)⟩

/-- **Drafts are accepted exactly when they are well formed, and as what they describe**; any other
draft is refused for the first of its flaws. Over the rationals the accepted program measures every
point by the entries of the maps. -/
theorem program_faithful :
    (∀ {α : Type} [Scalar α] [FiniteOrder α] (d : Draft α),
      (∀ p, d.program = .ok p ↔ d.WellFormed ∧ p = d.denseProgram) ∧
        ∀ flaw, d.program = .error flaw ↔ d.flaws.head? = some flaw) ∧
    ∀ (d : Draft ℚ) (p : Program ℚ), d.program = .ok p → ∀ point,
      p.valueAt point = d.measure d.objective.coefficients point ∧
        p.constraints.map (·.consumed point) =
          d.constraints.map fun c => d.measure c.coefficients point := by
  refine ⟨fun d => ⟨fun p => ok_iff, fun flaw => error_iff⟩, fun d p ok point => ?_⟩
  obtain ⟨wellFormed, rfl⟩ := ok_iff.mp ok
  refine ⟨dot_dense_eq_measure wellFormed.names wellFormed.objective point, ?_⟩
  rw [denseProgram, List.map_map]
  exact List.map_congr_left fun c hc =>
    dot_dense_eq_measure wellFormed.names (wellFormed.constraints c hc) point

/-- A lunch of bread and cheese, with enough protein, for as little money as possible. -/
def lunch (α : Type) [Scalar α] : Draft α where
  vars := [{ name := "cheese", lower := 0, upper := some 4.0 },
    { name := "bread", lower := 1, upper := none }]
  objective := { sense := .minimize, coefficients := .ofList [("cheese", 3.0)] }
  constraints := [{
    label := "protein"
    coefficients := .ofList [("cheese", 7.0), ("bread", 4.0)]
    relation := .atLeast
    limit := 20.0 }]

/-- A lunch with an unknown spread, and a constraint that is given twice and without a limit. -/
def picnic (α : Type) [Scalar α] : Draft α :=
  { lunch α with
    constraints := (lunch α).constraints ++ [{
      label := "protein"
      coefficients := .ofList [("jam", 1), ("butter", 1)]
      relation := .atLeast
      limit := 1 / 0 }] }

theorem program_faithful_lunch :
    (lunch Float).program = .ok (lunch Float).denseProgram ∧
    (picnic Float).program = .error (.unknownVariable (.constraint "protein") "butter") ∧
    (lunch ℚ).denseProgram.valueAt [2, 3] = 6 := by
  have wellFormed : (lunch Float).WellFormed :=
    wellFormed_iff.mpr (List.isEmpty_iff.mp (by decide +kernel))
  have wellFormed' : (lunch ℚ).WellFormed :=
    wellFormed_iff.mpr (List.isEmpty_iff.mp (by decide +kernel))
  refine ⟨((program_faithful.1 _).1 _).mpr ⟨wellFormed, rfl⟩,
    ((program_faithful.1 _).2 _).mpr (by rfl), ?_⟩
  rw [(program_faithful.2 _ _ (((program_faithful.1 _).1 _).mpr ⟨wellFormed', rfl⟩) _).1]
  decide +kernel

end Draft

end Allotment
