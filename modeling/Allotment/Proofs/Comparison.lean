import Allotment.Comparison
import Allotment.Proofs.Change
import Allotment.Proofs.Mirror
import Allotment.Proofs.Simplex.Outcome
import Allotment.Proofs.WellFormed

/-!
# Comparing the other way round

A comparison goes from a base to another program. Exchanging the two exchanges everything that is said of
them: the texts of the aspect in which their shapes first differ, where these differ
(`Program.firstDifference?_comm`), and otherwise the solutions, the outcome (`Outcome.mirror`) and the two
values of every quantity, while differences are negated (`compare_reverses`). Negation is all that is asked
of the number system: that `a - b` is `b - a` negated.
-/

namespace Allotment
set_option autoImplicit false

/-! ## Shapes -/

theorem Relation.symbol_injective : Function.Injective Relation.symbol := by
  intro r r' same
  cases r <;> cases r' <;> first | rfl | exact absurd same (by decide)

namespace Program

variable {α : Type} {p q : Program α}

/-- **The texts of an aspect**: the names, the labels, or the relations as they are written. -/
def texts (p : Program α) : Aspect → List String
  | .names => p.names
  | .labels => p.labels
  | .relations => p.relations.map (·.symbol)

/-- **The first aspect in which two programs differ**: the names count before the labels, and these before
the relations. -/
def firstDifference? (p q : Program α) : Option Aspect :=
  [.names, .labels, .relations].find? fun aspect => p.texts aspect ≠ q.texts aspect

theorem firstDifference?_comm : p.firstDifference? q = q.firstDifference? p := by
  simp only [firstDifference?, ne_comm]

/-- **The shapes of programs differ in the texts of the first aspect in which they do.** -/
theorem mismatch?_eq : p.mismatch? q =
    (p.firstDifference? q).map fun aspect => .shapeMismatch aspect (p.texts aspect) (q.texts aspect) := by
  have written : p.relations.map (·.symbol) = q.relations.map (·.symbol) ↔ p.relations = q.relations :=
    (List.map_injective_iff.mpr Relation.symbol_injective).eq_iff
  simp only [mismatch?, firstDifference?, texts, List.find?_cons, List.find?_nil, ne_eq, written]
  by_cases names : p.names = q.names
  · by_cases labels : p.labels = q.labels
    · by_cases relations : p.relations = q.relations
      · simp [names, labels, relations]
      · simp [names, labels, relations]
    · simp [names, labels]
  · simp [names]

theorem firstDifference?_eq_none_iff : p.firstDifference? q = none ↔ p.SameShape q := by
  rw [← mismatch?_eq_none_iff, mismatch?_eq, Option.map_eq_none_iff]

end Program

/-! ## Outcomes -/

namespace Outcome

/-- What comes of the comparison with the sides exchanged. -/
def mirror : Outcome → Outcome
  | compared => compared
  | becameInfeasible => becameFeasible
  | becameFeasible => becameInfeasible
  | notComparable base changed => notComparable changed base

theorem ofStatuses_swap (a b : Status) : ofStatuses b a = (ofStatuses a b).mirror := by
  cases a <;> cases b <;> rfl

theorem mirror_eq_compared_iff {o : Outcome} : o.mirror = .compared ↔ o = .compared := by
  cases o <;> simp [mirror]

end Outcome

variable {α : Type} [Scalar α]

/-! ## Comparisons -/

/-- A shift with its sides exchanged. -/
structure Shift.Reverses (a b : Shift α) : Prop where
  name : b.name = a.name
  base : b.base = a.changed
  changed : b.changed = a.base
  delta : Opposite b.delta a.delta

namespace Comparison

/-- **A comparison with its sides exchanged.** -/
structure Reverses (a b : Comparison α) : Prop where
  base : b.base = a.changed
  changed : b.changed = a.base
  outcome : b.outcome = a.outcome.mirror
  shifts : List.Forall₂ Shift.Reverses a.shifts b.shifts
  objectiveDelta : Option.Rel Opposite b.objectiveDelta a.objectiveDelta

/-- **A comparison judges two programs**: it holds their solutions, and its outcome says where an optimum
stands beside another one or beside an infeasible program. -/
structure Judges (s : SolverSettings α) (p q : Program α) (c : Comparison α) : Prop where
  base : c.base = Simplex.solve s p
  changed : c.changed = Simplex.solve s q
  outcome : c.outcome = Outcome.ofStatuses c.base.status c.changed.status
  compared : c.outcome = .compared ↔ c.base.status = .optimal ∧ c.changed.status = .optimal
  becameInfeasible :
    c.outcome = .becameInfeasible ↔ c.base.status = .optimal ∧ c.changed.status = .infeasible
  becameFeasible :
    c.outcome = .becameFeasible ↔ c.base.status = .infeasible ∧ c.changed.status = .optimal

/-- **A comparison accounts for two programs**: it judges them, and has differences just when both are
optima. Then each variable of the base is there once, in order, with its two quantities and how far they
are apart. -/
structure Accounts (s : SolverSettings α) (p q : Program α) (c : Comparison α) : Prop
    extends Judges s p q c where
  objectiveDelta : c.objectiveDelta = if c.outcome = .compared then
    some (q.valueAt c.changed.values - p.valueAt c.base.values) else none
  shifts : c.shifts ≠ [] ↔ c.outcome = .compared
  names : c.outcome = .compared → c.shifts.map (·.name) = p.names
  once : (c.shifts.map (·.name)).Nodup
  bases : c.outcome = .compared → c.shifts.map (·.base) = c.base.values
  changes : c.outcome = .compared → c.shifts.map (·.changed) = c.changed.values
  deltas : ∀ d ∈ c.shifts, d.delta = d.changed - d.base

variable {a b : Solution α}

theorem ofSolutions_eq (a b : Solution α) : (ofSolutions a b).base = a ∧ (ofSolutions a b).changed = b ∧
    (ofSolutions a b).outcome = .ofStatuses a.status b.status := by
  unfold ofSolutions
  simp only
  split <;> exact ⟨rfl, rfl, rfl⟩

theorem length_shiftsBetween : (shiftsBetween a b).length =
    min (min a.names.length a.values.length) b.values.length := by
  rw [shiftsBetween, Solution.namedValues, List.length_zipWith, List.length_zip]

theorem getElem_shiftsBetween {i : ℕ} (h : i < (shiftsBetween a b).length)
    (name : i < a.names.length) (base : i < a.values.length) (changed : i < b.values.length) :
    (shiftsBetween a b)[i] = .between a.names[i] a.values[i] b.values[i] := by
  simp only [shiftsBetween, Solution.namedValues, List.getElem_zipWith, List.getElem_zip]

theorem exists_between {d : Shift α} (h : d ∈ shiftsBetween a b) : ∃ name x y, d = .between name x y := by
  obtain ⟨i, hi, rfl⟩ := List.mem_iff_getElem.mp h
  have inside := hi
  rw [length_shiftsBetween, lt_min_iff, lt_min_iff] at inside
  exact ⟨_, _, _, getElem_shiftsBetween hi inside.1.1 inside.1.2 inside.2⟩

/-- A list made of the shifts is a list of the same length with the same entries. -/
theorem map_shiftsBetween {β : Type} {f : Shift α → β} {l : List β}
    (names : a.names.length = l.length) (bases : a.values.length = l.length)
    (changes : b.values.length = l.length)
    (each : ∀ i (h : i < l.length), f (.between a.names[i] a.values[i] b.values[i]) = l[i]) :
    (shiftsBetween a b).map f = l := by
  have count : (shiftsBetween a b).length = l.length := by
    rw [length_shiftsBetween, names, bases, changes, min_self, min_self]
  refine List.ext_getElem (by rw [List.length_map, count]) fun i hi hi' => ?_
  rw [List.getElem_map, getElem_shiftsBetween _ (names ▸ hi') (bases ▸ hi') (changes ▸ hi')]
  exact each i hi'

theorem reverses_shiftsBetween [SwappedDifference α] (same : a.names = b.names) :
    List.Forall₂ Shift.Reverses (shiftsBetween a b) (shiftsBetween b a) := by
  rw [List.forall₂_iff_get]
  constructor
  · rw [length_shiftsBetween, length_shiftsBetween, same, min_assoc, min_assoc, min_comm a.values.length]
  · intro i hi hi'
    have inside := hi
    rw [length_shiftsBetween, lt_min_iff, lt_min_iff] at inside
    obtain ⟨⟨name, base⟩, changed⟩ := inside
    rw [List.get_eq_getElem, List.get_eq_getElem, getElem_shiftsBetween hi name base changed,
      getElem_shiftsBetween hi' (same ▸ name) changed base]
    exact ⟨by simp only [Shift.between, same], rfl, rfl, SwappedDifference.sub_swap _ _⟩

theorem objectiveChange?_swap [SwappedDifference α] :
    Option.Rel Opposite (objectiveChange? b a) (objectiveChange? a b) := by
  unfold objectiveChange?
  cases a.objective with
  | none =>
    cases b.objective with
    | none => exact .none
    | some y => exact .none
  | some x =>
    cases b.objective with
    | none => exact .none
    | some y => exact .some (SwappedDifference.sub_swap x y)

/-- **Solutions compared the other way round.** -/
theorem reverses_ofSolutions [SwappedDifference α] (same : a.names = b.names) :
    (ofSolutions a b).Reverses (ofSolutions b a) := by
  have mirrored := Outcome.ofStatuses_swap a.status b.status
  unfold ofSolutions
  by_cases compared : Outcome.ofStatuses a.status b.status = .compared
  · have compared' : Outcome.ofStatuses b.status a.status = .compared := by
      rw [mirrored, compared]
      rfl
    simp only [compared, compared', if_true]
    exact ⟨rfl, rfl, rfl, reverses_shiftsBetween same, objectiveChange?_swap⟩
  · have apart : Outcome.ofStatuses b.status a.status ≠ .compared := by
      rwa [mirrored, Ne, Outcome.mirror_eq_compared_iff]
    simp only [if_neg compared, if_neg apart]
    exact ⟨rfl, rfl, mirrored, .nil, .none⟩

open Simplex

theorem judges_ofSolutions (s : SolverSettings α) (p q : Program α) :
    (ofSolutions (solve s p) (solve s q)).Judges s p q := by
  obtain ⟨base, changed, told⟩ := ofSolutions_eq (solve s p) (solve s q)
  have outcome : (ofSolutions (solve s p) (solve s q)).outcome =
      .ofStatuses (ofSolutions (solve s p) (solve s q)).base.status
        (ofSolutions (solve s p) (solve s q)).changed.status := by
    rw [told, base, changed]
  exact {
    base
    changed
    outcome
    compared := by rw [outcome, Outcome.ofStatuses_eq_compared_iff]
    becameInfeasible := by rw [outcome, Outcome.ofStatuses_eq_becameInfeasible_iff]
    becameFeasible := by rw [outcome, Outcome.ofStatuses_eq_becameFeasible_iff] }

/-- **The solutions of two programs of one shape** are compared quantity by quantity. -/
theorem accounts_ofSolutions {p q : Program α} (s : SolverSettings α) (nonempty : p.vars ≠ [])
    (unique : p.names.Nodup) (shape : p.SameShape q) :
    (ofSolutions (solve s p) (solve s q)).Accounts s p q := by
  have judges := judges_ofSolutions s p q
  unfold ofSolutions at judges ⊢
  by_cases compared : Outcome.ofStatuses (solve s p).status (solve s q).status = .compared
  · obtain ⟨optimal, optimal'⟩ := Outcome.ofStatuses_eq_compared_iff.mp compared
    obtain ⟨own, before, objective, -⟩ := measured_of_optimal optimal
    obtain ⟨-, after, objective', -⟩ := measured_of_optimal optimal'
    rw [← Program.length_names] at before after
    rw [← shape.names] at after
    have known : (solve s p).names.length = p.names.length := congrArg _ own
    have names : (shiftsBetween (solve s p) (solve s q)).map (·.name) = p.names :=
      map_shiftsBetween known before after fun i h => by simp only [Shift.between, own]
    have change : objectiveChange? (solve s p) (solve s q) =
        some (q.valueAt (solve s q).values - p.valueAt (solve s p).values) := by
      rw [objectiveChange?, objective, objective']
      rfl
    have some : shiftsBetween (solve s p) (solve s q) ≠ [] := by
      intro none
      rw [none] at names
      exact nonempty (List.map_eq_nil_iff.mp names.symm)
    rw [if_pos compared] at judges ⊢
    exact {
      toJudges := judges
      objectiveDelta := change.trans (if_pos compared).symm
      shifts := iff_of_true some compared
      names := fun _ => names
      once := names.symm ▸ unique
      bases := fun _ =>
        map_shiftsBetween (known.trans before.symm) rfl (after.trans before.symm) fun _ _ => rfl
      changes := fun _ =>
        map_shiftsBetween (known.trans after.symm) (before.trans after.symm) rfl fun _ _ => rfl
      deltas := by
        intro d mem
        obtain ⟨name, x, y, rfl⟩ := exists_between mem
        rfl }
  · rw [if_neg compared] at judges ⊢
    exact {
      toJudges := judges
      objectiveDelta := (if_neg compared).symm
      shifts := iff_of_false (fun some => some rfl) compared
      names := fun h => absurd h compared
      once := List.nodup_nil
      bases := fun h => absurd h compared
      changes := fun h => absurd h compared
      deltas := nofun }

end Comparison

section Compare

open Simplex

theorem compare_eq_ok {s : SolverSettings α} {p q : Program α} {comparison : Comparison α}
    (ok : compare s p q = .ok comparison) :
    comparison = .ofSolutions (solve s p) (solve s q) := by
  unfold compare at ok
  split at ok
  · cases ok
  · cases ok
    rfl

variable (s : SolverSettings α) {p q : Program α}

theorem compare_of_sameShape (shape : p.SameShape q) :
    compare s p q = .ok (.ofSolutions (solve s p) (solve s q)) := by
  rw [compare, Program.mismatch?_eq_none_iff.mpr shape]

theorem compare_of_firstDifference {aspect : Aspect} (h : p.firstDifference? q = some aspect) :
    compare s p q = .error (.shapeMismatch aspect (p.texts aspect) (q.texts aspect)) := by
  rw [compare, Program.mismatch?_eq, h]
  rfl

/-- **A comparison is refused just when the shapes differ.** -/
theorem compare_eq_error_iff : (∃ flaw, compare s p q = .error flaw) ↔ ¬p.SameShape q := by
  rw [← Program.firstDifference?_eq_none_iff]
  cases h : p.firstDifference? q with
  | none =>
    rw [compare_of_sameShape s (Program.firstDifference?_eq_none_iff.mp h)]
    exact iff_of_false nofun (fun apart => apart rfl)
  | some aspect =>
    rw [compare_of_firstDifference s h]
    exact iff_of_true ⟨_, rfl⟩ nofun

end Compare

/-- **Comparing the other way round**, for every valid base, every other program and all settings. Both
comparisons are refused just when the shapes differ, and then for the same aspect, the first in which they
do, with its texts exchanged. Otherwise both account for the two programs, and the one is the other with
its sides exchanged: solutions and quantities change places, the outcome is mirrored, and every difference
is negated. -/
theorem compare_reverses [SwappedDifference α] (s : SolverSettings α) (p q : Program α)
    (valid : p.flaw? = none) :
    ((∃ flaw, compare s p q = .error flaw) ↔ ¬p.SameShape q) ∧
    ((∃ flaw, compare s q p = .error flaw) ↔ ¬p.SameShape q) ∧
    (¬p.SameShape q → ∃ aspect, p.firstDifference? q = some aspect ∧
      compare s p q = .error (.shapeMismatch aspect (p.texts aspect) (q.texts aspect)) ∧
      compare s q p = .error (.shapeMismatch aspect (q.texts aspect) (p.texts aspect))) ∧
    (p.SameShape q → ∃ a b, compare s p q = .ok a ∧ compare s q p = .ok b ∧
      a.Accounts s p q ∧ b.Accounts s q p ∧ a.Reverses b) := by
  have swapped : q.SameShape p ↔ p.SameShape q := ⟨.symm, .symm⟩
  refine ⟨compare_eq_error_iff s, (compare_eq_error_iff s).trans (not_congr swapped), fun apart => ?_,
    fun shape => ?_⟩
  · obtain ⟨aspect, first⟩ := Option.ne_none_iff_exists'.mp
      (mt Program.firstDifference?_eq_none_iff.mp apart)
    exact ⟨aspect, first, compare_of_firstDifference s first,
      compare_of_firstDifference s (Program.firstDifference?_comm.trans first)⟩
  · have wellFormed := p.flaw?_eq_none_iff.mp valid
    have nonempty : q.vars ≠ [] := by
      intro none
      have names := shape.names
      rw [Program.names, Program.names, none] at names
      exact wellFormed.nonempty (List.map_eq_nil_iff.mp names)
    refine ⟨_, _, compare_of_sameShape s shape, compare_of_sameShape s shape.symm,
      Comparison.accounts_ofSolutions s wellFormed.nonempty wellFormed.names shape,
      Comparison.accounts_ofSolutions s nonempty (shape.names ▸ wellFormed.names) shape.symm, ?_⟩
    refine Comparison.reverses_ofSolutions ?_
    rw [Simplex.names_solve, Simplex.names_solve, shape.names]

/-- The hats with ten yards of felt. -/
def moreHats : Program Float :=
  { hats with constraints := hats.constraints.map fun c => { c with limit := 10 } }

/-- The hats, where the felt has to be used up. -/
def allHats : Program Float :=
  { hats with constraints := hats.constraints.map fun c => { c with relation := .equal } }

theorem compare_reverses_hats :
    (hats.flaw? = none ∧ hats.SameShape moreHats ∧ ¬hats.SameShape allHats) ∧
    (∃ a b, compare .default hats moreHats = .ok a ∧ compare .default moreHats hats = .ok b ∧
      a.outcome = .compared ∧ a.Reverses b) ∧
    compare .default allHats hats = .error (.shapeMismatch .relations ["="] ["<="]) := by
  have valid : hats.flaw? = none := Option.isNone_iff_eq_none.mp (by decide +kernel)
  have same : hats.SameShape moreHats := ⟨by decide, by decide, by decide⟩
  have apart : ¬hats.SameShape allHats := fun shape => absurd shape.relations (by decide)
  refine ⟨⟨valid, same, apart⟩, ?_, ?_⟩
  · obtain ⟨a, b, ha, hb, accounts, -, reverses⟩ := (compare_reverses .default hats moreHats valid).2.2.2 same
    have compared : a.outcome = .compared := by
      rw [accounts.outcome, accounts.base, accounts.changed]
      decide +kernel
    exact ⟨a, b, ha, hb, compared, reverses⟩
  · obtain ⟨aspect, first, -, back⟩ := (compare_reverses .default hats allHats valid).2.2.1 apart
    have relations : hats.firstDifference? allHats = some .relations := by decide
    rw [relations] at first
    obtain rfl := Option.some.inj first
    exact back

end Allotment
