import Allotment.Proofs.WholeUnits.Enumeration
import Allotment.Simplex.TwoPhase
import Allotment.WholeUnits.Allocation

/-!
# The search around the rounded point

The box that the search goes through, said over the integers: around each rounded number as far as
the radius and the bounds of its variable allow (`Rounder.spans`). The search examines the first
points of that box in order, and what an allocation reports of it is exact: how many points were
examined, whether the cap left some out, and whether one of those examined is feasible. All of this
is about machine integers and a test, so it holds in every number system.
-/

namespace Allotment.WholeUnits
set_option autoImplicit false

theorem zipWith_map_zip {β γ δ ε ζ : Type} (g : δ → ε → ζ) (f : β × γ → δ) (h : β → ε) (l : List β)
    (m : List γ) : List.zipWith g ((l.zip m).map f) (l.map h) = (l.zip m).map fun ab => g (f ab) (h ab.1) := by
  induction l generalizing m with
  | nil => rfl
  | cons a l ih =>
    cases m with
    | nil => rfl
    | cons b m => simp [ih]

variable {α : Type} [Scalar α]

theorem roundedPoint_eq {p : Program α} {values : List α} :
    Rounder.roundedPoint p values = (p.vars.zip values).map fun vq =>
      (UnitRange.ofVariable vq.1).clamp (Scalar.round vq.2) := by
  rw [Rounder.roundedPoint, Rounder.ranges, List.zipWith_map_right, List.zipWith_comm, List.zip,
    List.map_zipWith]

theorem neighbourhood_roundedPoint {p : Program α} {values : List α} (r : Rounder α) :
    r.neighbourhood p (Rounder.roundedPoint p values) = (p.vars.zip values).map fun vq =>
      (UnitRange.ofVariable vq.1).around ((UnitRange.ofVariable vq.1).clamp (Scalar.round vq.2))
        (Int64.ofNat r.radius.toNat) := by
  rw [roundedPoint_eq, Rounder.neighbourhood, Rounder.ranges, zipWith_map_zip]

/-! ## The box -/

namespace Rounder

/-- What the search may move one coordinate to: the whole numbers within the radius of the rounded one
that the bounds of the variable allow. -/
def span (r : Rounder α) (v : Variable α) (n : ℤ) : Span where
  low := max (n - r.radius.toNat) (Scalar.ceil v.lower).toInt
  high :=
    match v.upper with
    | none => n + r.radius.toNat
    | some u => min (n + r.radius.toNat) (Scalar.floor u).toInt

/-- **The box that is searched**, over the integers. -/
def spans (r : Rounder α) (p : Program α) (values : List α) : List Span :=
  List.zipWith (fun (n : Int64) v => r.span v n.toInt) (roundedPoint p values) p.vars

/-- **The candidates**: the points that the search examines, in order. -/
def candidates (r : Rounder α) (p : Program α) (values : List α) : List (List Int64) :=
  (r.neighbourhood p (roundedPoint p values)).visited r.cap

/-- A point in whole units passes the test of feasibility. -/
def Accepts (r : Rounder α) (p : Program α) (units : List Int64) : Prop :=
  p.feasible (units.map Scalar.ofUnits) r.tolerance = true

instance (r : Rounder α) (p : Program α) (units : List Int64) : Decidable (r.Accepts p units) :=
  inferInstanceAs (Decidable (_ = true))

/-- No step by the radius leaves the machine integers. -/
def Fits (r : Rounder α) (units : List Int64) : Prop :=
  ∀ n ∈ units, -2 ^ 63 ≤ n.toInt - r.radius.toNat ∧ n.toInt + r.radius.toNat < 2 ^ 63

end Rounder

/-- Some whole number is between the bounds, as far as machine integers can tell. -/
def HasRange (v : Variable α) : Prop := ∀ u ∈ v.upper, (Scalar.ceil v.lower : Int64) ≤ Scalar.floor u

instance (v : Variable α) : Decidable (HasRange v) :=
  inferInstanceAs (Decidable (∀ u ∈ v.upper, (Scalar.ceil v.lower : Int64) ≤ Scalar.floor u))

section Side

variable {r : Rounder α} {v : Variable α}

theorem isEmpty_eq_false_iff_hasRange : (UnitRange.ofVariable v).isEmpty = false ↔ HasRange v := by
  unfold UnitRange.isEmpty UnitRange.ofVariable HasRange
  cases hu : v.upper with
  | none => simp
  | some u => simp

/-- A number that is moved into a range is in it. -/
theorem clamp_bounds (has : HasRange v) (k : Int64) :
    (Scalar.ceil v.lower : Int64).toInt ≤ ((UnitRange.ofVariable v).clamp k).toInt ∧
      ∀ u ∈ v.upper, ((UnitRange.ofVariable v).clamp k).toInt ≤ (Scalar.floor u : Int64).toInt := by
  unfold UnitRange.clamp UnitRange.ofVariable
  cases hu : v.upper with
  | none =>
    simp only [Option.map_none, toInt_max]
    exact ⟨le_max_right _ _, by simp⟩
  | some u =>
    have ordered := Int64.le_iff_toInt_le.mp (has u hu)
    simp only [Option.map_some, toInt_min, toInt_max, Option.mem_def, Option.some.injEq, forall_eq']
    exact ⟨le_min (le_max_right _ _) ordered, min_le_right _ _⟩

/-- **The side around a rounded number**: it has the range that the search may use, which is not
empty. -/
theorem span_around (has : HasRange v) {n k : Int64} (clamped : n = (UnitRange.ofVariable v).clamp k)
    (low : -2 ^ 63 ≤ n.toInt - r.radius.toNat) (high : n.toInt + r.radius.toNat < 2 ^ 63) :
    ((UnitRange.ofVariable v).around n (Int64.ofNat r.radius.toNat)).span = r.span v n.toInt ∧
      ((UnitRange.ofVariable v).around n (Int64.ofNat r.radius.toNat)).low ≤
        ((UnitRange.ofVariable v).around n (Int64.ofNat r.radius.toNat)).high := by
  have short := r.radius.toNat_lt
  have distance := toInt_radius r.radius
  have least := n.le_toInt
  have greatest := n.toInt_lt
  have below : (n - Int64.ofNat r.radius.toNat).toInt = n.toInt - r.radius.toNat := by
    rw [toInt_sub_of_bounds] <;> omega
  have above : (n + Int64.ofNat r.radius.toNat).toInt = n.toInt + r.radius.toNat := by
    rw [toInt_add_of_bounds] <;> omega
  obtain ⟨atLeast, atMost⟩ := clamp_bounds has k
  rw [← clamped] at atLeast atMost
  rw [Int64.le_iff_toInt_le]
  cases hu : v.upper with
  | none =>
    simp only [Side.span, Rounder.span, UnitRange.around, UnitRange.ofVariable, hu, Option.map_none,
      toInt_max, below, above]
    exact ⟨trivial, by omega⟩
  | some u =>
    have inside := atMost u hu
    simp only [Side.span, Rounder.span, UnitRange.around, UnitRange.ofVariable, hu, Option.map_some,
      toInt_max, toInt_min, below, above]
    exact ⟨trivial, by omega⟩

end Side

section Box

variable {r : Rounder α} {p : Program α} {values : List α} (has : ∀ v ∈ p.vars, HasRange v)
  (fits : r.Fits (Rounder.roundedPoint p values))
include has fits

theorem around_of_mem_zip {vq : Variable α × α} (mem : vq ∈ p.vars.zip values) :
    let n := (UnitRange.ofVariable vq.1).clamp (Scalar.round vq.2)
    let side := (UnitRange.ofVariable vq.1).around n (Int64.ofNat r.radius.toNat)
    side.span = r.span vq.1 n.toInt ∧ side.low ≤ side.high := by
  have rounded : (UnitRange.ofVariable vq.1).clamp (Scalar.round vq.2) ∈ Rounder.roundedPoint p values := by
    rw [roundedPoint_eq]
    exact List.mem_map_of_mem mem
  obtain ⟨low, high⟩ := fits _ rounded
  exact span_around (has _ (List.of_mem_zip (a := vq.1) (b := vq.2) mem).1) rfl low high

theorem spans_neighbourhood :
    (r.neighbourhood p (Rounder.roundedPoint p values)).spans = r.spans p values := by
  have whole := zipWith_map_zip (fun (n : Int64) v => r.span v n.toInt)
    (fun vq : Variable α × α => (UnitRange.ofVariable vq.1).clamp (Scalar.round vq.2)) id p.vars values
  rw [List.map_id] at whole
  rw [neighbourhood_roundedPoint, Box.spans, List.map_map, Rounder.spans, roundedPoint_eq, whole]
  exact List.map_congr_left fun vq mem => (around_of_mem_zip has fits mem).1

theorem neighbourhood_ordered :
    ∀ side ∈ r.neighbourhood p (Rounder.roundedPoint p values), side.low ≤ side.high := by
  rw [neighbourhood_roundedPoint, List.forall_mem_map]
  exact fun vq mem => (around_of_mem_zip has fits mem).2

end Box

/-! ## The search -/

section Search

variable {r : Rounder α} {p : Program α} {s : Solution α}

theorem objectiveAt?_eq_none_iff {units : List Int64} :
    objectiveAt? p r.tolerance units = none ↔ ¬r.Accepts p units := by
  simp [objectiveAt?, Rounder.Accepts]

/-- An examination leaves nothing behind only where there was nothing and the point fails the test. -/
theorem examine_eq_none_iff {best : Option (Best α)} {units : List Int64} :
    Best.examine p r.tolerance s.values best units = none ↔ best = none ∧ ¬r.Accepts p units := by
  rw [← objectiveAt?_eq_none_iff, Best.examine]
  cases objectiveAt? p r.tolerance units with
  | none => simp
  | some objective =>
    cases best with
    | none => simp
    | some b =>
      simp only
      split <;> simp

/-- **Nothing is found only where every point fails the test.** -/
theorem foldl_examine_eq_none_iff {points : List (List Int64)} {best : Option (Best α)} :
    points.foldl (Best.examine p r.tolerance s.values) best = none ↔
      best = none ∧ ∀ units ∈ points, ¬r.Accepts p units := by
  induction points generalizing best with
  | nil => simp
  | cons units points ih =>
    rw [List.foldl_cons, ih, examine_eq_none_iff, List.forall_mem_cons, and_assoc]

/-- **No range is empty just where each variable has a whole number.** -/
theorem ranges_iff : (Rounder.ranges p).any (·.isEmpty) = false ↔ ∀ v ∈ p.vars, HasRange v := by
  rw [Rounder.ranges, List.any_eq_false, List.forall_mem_map]
  exact forall₂_congr fun v _ => by rw [Bool.not_eq_true, isEmpty_eq_false_iff_hasRange]

section Allocate

variable {continuous : α} (optimum : s.optimum? p.vars.length = some continuous)
  (has : ∀ v ∈ p.vars, HasRange v) (fails : ¬r.Accepts p (Rounder.roundedPoint p s.values))
include optimum has fails

/-- Where the rounded point fails the test, the allocation is the best point that the search finds. -/
theorem allocate_of_found {best : Best α}
    (result : (r.search p s.values (Rounder.roundedPoint p s.values)).result = some best) :
    r.allocate p s = .found p .searched best.units best.objective continuous
      ((r.search p s.values (Rounder.roundedPoint p s.values)).visited + 1)
      (r.search p s.values (Rounder.roundedPoint p s.values)).truncated := by
  simp only [Rounder.allocate, optimum, ranges_iff.mpr has, objectiveAt?_eq_none_iff.mpr fails, result,
    Bool.false_eq_true, if_false]

/-- Where the search finds nothing either, there is no allocation. -/
theorem allocate_of_nothing
    (result : (r.search p s.values (Rounder.roundedPoint p s.values)).result = none) :
    r.allocate p s = .absent p .exhausted (some continuous)
      ((r.search p s.values (Rounder.roundedPoint p s.values)).visited + 1)
      (r.search p s.values (Rounder.roundedPoint p s.values)).truncated := by
  simp only [Rounder.allocate, optimum, ranges_iff.mpr has, objectiveAt?_eq_none_iff.mpr fails, result,
    Bool.false_eq_true, if_false]

/-- Both endings of the search count its points and the rounded one. -/
theorem reported_of_search :
    (r.allocate p s).examined = (r.search p s.values (Rounder.roundedPoint p s.values)).visited + 1 ∧
      (r.allocate p s).truncated =
        (r.search p s.values (Rounder.roundedPoint p s.values)).truncated := by
  cases result : (r.search p s.values (Rounder.roundedPoint p s.values)).result with
  | none =>
    rw [allocate_of_nothing optimum has fails result]
    exact ⟨rfl, rfl⟩
  | some best =>
    rw [allocate_of_found optimum has fails result]
    exact ⟨rfl, rfl⟩

/-- **The search succeeds just where a candidate passes the test.** -/
theorem ending_of_search :
    ((r.allocate p s).ending = .searched ∧ ∃ units ∈ r.candidates p s.values, r.Accepts p units) ∨
      ((r.allocate p s).ending = .exhausted ∧
        ∀ units ∈ r.candidates p s.values, ¬r.Accepts p units) := by
  have found : (r.search p s.values (Rounder.roundedPoint p s.values)).result = none ↔
      ∀ units ∈ r.candidates p s.values, ¬r.Accepts p units := by
    rw [Rounder.search, Box.walk_result, foldl_examine_eq_none_iff]
    exact and_iff_right rfl
  cases result : (r.search p s.values (Rounder.roundedPoint p s.values)).result with
  | none =>
    rw [allocate_of_nothing optimum has fails result]
    exact .inr ⟨rfl, found.mp result⟩
  | some best =>
    rw [allocate_of_found optimum has fails result]
    refine .inl ⟨rfl, ?_⟩
    by_contra none
    have empty := found.mpr fun units mem accepted => none ⟨units, mem, accepted⟩
    rw [result] at empty
    cases empty

end Allocate

/-- An allocation that was searched for is the best point that the search has left behind. -/
theorem exists_result_of_searched (searched : (r.allocate p s).ending = .searched) :
    ∃ best, (r.search p s.values (Rounder.roundedPoint p s.values)).result = some best ∧
      (r.allocate p s).units = best.units ∧ (r.allocate p s).objective = some best.objective := by
  unfold Rounder.allocate at searched ⊢
  split at searched
  · cases searched
  split at searched
  · cases searched
  next continuous _ ranges =>
  rw [if_neg ranges]
  simp only at searched ⊢
  split at searched
  · cases searched
  split at searched
  · next best result => exact ⟨best, result, rfl, rfl⟩
  · cases searched

end Search

/-- **A search that goes through its box once, in order, and reports what it did.** -/
structure Rounder.HonestSearch (r : Rounder α) (p : Program α) (s : Solution α) : Prop where
  /-- The candidates are the first points of the box. -/
  candidates : (r.candidates p s.values).map numbers = (readings (r.spans p s.values)).take r.cap
  covers : ∀ x, x ∈ readings (r.spans p s.values) ↔ InSpans (r.spans p s.values) x
  ordered : (readings (r.spans p s.values)).Pairwise Precedes
  count : (readings (r.spans p s.values)).length = size (r.spans p s.values)
  distinct : (r.candidates p s.values).Nodup
  /-- The best point is chosen among the candidates, taken one after the other. -/
  chosen : (r.search p s.values (roundedPoint p s.values)).result =
    (r.candidates p s.values).foldl (Best.examine p r.tolerance s.values) none
  examined : (r.allocate p s).examined = 1 + min (size (r.spans p s.values)) r.cap
  truncated : (r.allocate p s).truncated = true ↔ r.cap < size (r.spans p s.values)
  searched : (r.allocate p s).ending = .searched ↔ ∃ units ∈ r.candidates p s.values, r.Accepts p units
  exhausted : (r.allocate p s).ending = .exhausted ↔ (r.allocate p s).ending ≠ .searched
  /-- A search that was not cut short and found nothing has tried every point of the box. -/
  nowhere : (r.allocate p s).ending = .exhausted → (r.allocate p s).truncated = false →
    ∀ x, InSpans (r.spans p s.values) x → ∃ units, numbers units = x ∧ ¬r.Accepts p units

/-- **The search is honest**, for every program and rounder and every continuous optimum, in every
number system: wherever each variable has a whole number between its bounds, the rounded point is not
feasible, and no step by the radius leaves the machine integers. -/
theorem search_honest (r : Rounder α) (p : Program α) (s : Solution α)
    (optimum : (s.optimum? p.vars.length).isSome = true) (has : ∀ v ∈ p.vars, HasRange v)
    (fails : ¬r.Accepts p (Rounder.roundedPoint p s.values))
    (fits : r.Fits (Rounder.roundedPoint p s.values)) : r.HonestSearch p s := by
  obtain ⟨continuous, optimum⟩ := Option.isSome_iff_exists.mp optimum
  have sides := neighbourhood_ordered has fits
  have box := spans_neighbourhood has fits
  have first : (r.candidates p s.values).map numbers = (readings (r.spans p s.values)).take r.cap := by
    rw [Rounder.candidates, Box.numbers_visited sides, box]
  have walk : r.search p s.values (Rounder.roundedPoint p s.values) = _ :=
    Box.walk_eq sides (Best.examine p r.tolerance s.values) none
  rw [box] at walk
  obtain ⟨examined, truncated⟩ := reported_of_search optimum has fails
  rw [walk] at examined truncated
  have ends := ending_of_search optimum has fails
  constructor
  case candidates => exact first
  case covers => exact fun x => mem_readings_iff
  case ordered => exact readings_ordered _
  case count => exact length_readings
  case distinct =>
    refine List.Nodup.of_map numbers ?_
    rw [first]
    exact (readings_nodup _).sublist (List.take_sublist _ _)
  case chosen =>
    rw [walk]
    rfl
  case examined => rw [examined, Nat.add_comm]
  case truncated => rw [truncated, decide_eq_true_eq]
  case searched =>
    obtain ⟨ending, found⟩ | ⟨ending, none⟩ := ends
    · exact iff_of_true ending found
    · rw [ending]
      exact iff_of_false nofun fun ⟨units, mem, accepted⟩ => none units mem accepted
  case exhausted => obtain ⟨ending, -⟩ | ⟨ending, -⟩ := ends <;> simp [ending]
  case nowhere =>
    intro exhausted whole x inside
    obtain ⟨ending, -⟩ | ⟨-, none⟩ := ends
    · rw [ending] at exhausted
      cases exhausted
    · rw [truncated, decide_eq_false_iff_not, not_lt] at whole
      rw [List.take_of_length_le (length_readings.trans_le whole)] at first
      have mem : x ∈ (r.candidates p s.values).map numbers := first ▸ mem_readings_iff.mpr inside
      obtain ⟨units, hunits, same⟩ := List.mem_map.mp mem
      exact ⟨units, same, none units hunits⟩

/-- Two quantities share a budget of which each takes two. -/
def sharedBudget : Program ℚ where
  vars := [⟨"x", 0, none⟩, ⟨"y", 0, none⟩]
  objective := ⟨.maximize, [1, 1]⟩
  constraints := [⟨"budget", [2, 2], .atMost, 5⟩]

/-- The optimum is at two and a half of the first quantity, and three of it are too many. -/
theorem search_honest_sharedBudget :
    (((Simplex.solve .default sharedBudget).optimum? sharedBudget.vars.length).isSome = true ∧
      (∀ v ∈ sharedBudget.vars, HasRange v) ∧
      ¬Rounder.Accepts ⟨2, 3, 1e-6⟩ sharedBudget
        (Rounder.roundedPoint sharedBudget (Simplex.solve .default sharedBudget).values) ∧
      Rounder.Fits (⟨2, 3, 1e-6⟩ : Rounder ℚ)
        (Rounder.roundedPoint sharedBudget (Simplex.solve .default sharedBudget).values)) ∧
    Rounder.HonestSearch ⟨2, 3, 1e-6⟩ sharedBudget (Simplex.solve .default sharedBudget) := by
  have optimum : ((Simplex.solve .default sharedBudget).optimum? sharedBudget.vars.length).isSome = true := by
    decide +kernel
  have has : ∀ v ∈ sharedBudget.vars, HasRange v := by decide +kernel
  have fails : ¬Rounder.Accepts ⟨2, 3, 1e-6⟩ sharedBudget
      (Rounder.roundedPoint sharedBudget (Simplex.solve .default sharedBudget).values) := by decide +kernel
  have rounded : Rounder.roundedPoint sharedBudget (Simplex.solve .default sharedBudget).values = [3, 0] := by
    decide +kernel
  have fits : Rounder.Fits (⟨2, 3, 1e-6⟩ : Rounder ℚ)
      (Rounder.roundedPoint sharedBudget (Simplex.solve .default sharedBudget).values) := by
    rw [rounded]
    have three : (3 : Int64).toInt = 3 := by decide
    have zero : (0 : Int64).toInt = 0 := by decide
    have radius : (2 : UInt32).toNat = 2 := by decide
    simp [Rounder.Fits, three, zero, radius]
  exact ⟨⟨optimum, has, fails, fits⟩,
    search_honest ⟨2, 3, 1e-6⟩ sharedBudget (Simplex.solve .default sharedBudget) optimum has fails fits⟩

end Allotment.WholeUnits
