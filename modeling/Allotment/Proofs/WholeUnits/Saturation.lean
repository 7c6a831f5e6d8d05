import Allotment.Proofs.ExactValue
import Allotment.Proofs.WellFormed
import Allotment.Proofs.WholeUnits.Neighbourhood

/-!
# How far the machine integers of an allocation can be trusted

Bounds and quantities become machine integers by being held to the range of 64 bits, and the ends of
the box are found by adding the radius and taking it away, where the machine integers wrap around. So
the rounded quantity is, whatever its size, the nearest whole number within the bounds held to the
range (`toInt_clamp_round`), and it is that number itself, with the box around it, as long as the
numbers are in range (`rounding_faithful_iff`). A rounded quantity is never negative, which leaves one
step that can go wrong: the one upwards.
-/

namespace Allotment
set_option autoImplicit false

open ExactUnits (value)

variable {α : Type} [Scalar α]

/-- A variable with the exact values of its bounds. -/
def Variable.exact [ExactUnits α] (v : Variable α) : Variable ℚ where
  name := v.name
  lower := value v.lower
  upper := v.upper.map value

theorem word_iff_of_nonneg {n : ℤ} (nonneg : 0 ≤ n) : Word n ↔ n < 2 ^ 63 := by
  unfold Word
  omega

namespace WholeUnits

/-! ## What an allocation goes through -/

/-- Quantities are rounded: each variable has a whole number between its bounds, as far as machine
integers can tell. -/
def Rounds (p : Program α) : Prop := ∀ v ∈ p.vars, HasRange v

instance (p : Program α) : Decidable (Rounds p) := inferInstanceAs (Decidable (∀ v ∈ p.vars, HasRange v))

/-- The points around the rounded one are searched, since that one is not feasible. -/
def Rounder.Searches (r : Rounder α) (p : Program α) (values : List α) : Prop :=
  Rounds p ∧ ¬r.Accepts p (Rounder.roundedPoint p values)

instance (r : Rounder α) (p : Program α) (values : List α) : Decidable (r.Searches p values) :=
  inferInstanceAs (Decidable (_ ∧ _))

/-- **Where nothing is rounded, the quantities do not matter.** -/
theorem allocate_of_not_rounds {r : Rounder α} {p : Program α} {s : Solution α} (not : ¬Rounds p)
    {continuous : α} (optimum : s.optimum? p.vars.length = some continuous) :
    r.allocate p s = .absent p .exhausted (some continuous) 0 false := by
  rw [Rounds, ← ranges_iff, Bool.not_eq_false] at not
  simp only [Rounder.allocate, optimum, not, if_true]

/-- **Where nothing is searched, the radius does not matter.** -/
theorem allocate_of_not_searches {r : Rounder α} {p : Program α} {s : Solution α}
    (not : ¬r.Searches p s.values) (radius : UInt32) :
    Rounder.allocate { r with radius } p s = r.allocate p s := by
  unfold Rounder.allocate
  cases s.optimum? p.vars.length with
  | none => rfl
  | some continuous =>
    by_cases rounds : Rounds p
    · have feasible : ¬objectiveAt? p r.tolerance (Rounder.roundedPoint p s.values) = none :=
        fun fails => not ⟨rounds, objectiveAt?_eq_none_iff.mp fails⟩
      obtain ⟨objective, found⟩ := Option.ne_none_iff_exists'.mp feasible
      simp only [found]
    · rw [Rounds, ← ranges_iff, Bool.not_eq_false] at rounds
      simp only [rounds, if_true]

/-! ## What it should do -/

/-- A side with a number in it, whose ends are no further from that number than a radius. -/
structure Side.Surrounds (side : Side) (n : ℤ) (radius : ℕ) : Prop where
  low_le : side.low.toInt ≤ n
  le_high : n ≤ side.high.toInt
  low_near : n - radius ≤ side.low.toInt
  high_near : side.high.toInt ≤ n + radius

variable [ExactUnits α]

/-- **Whole numbers are what they stand for**: no bound and no quantity is changed by being held to the
range, a rounded quantity is the nearest whole number within the bounds, and no step from it by the
radius wraps around, so that the box has the ends it should have. -/
structure Rounder.Faithful (r : Rounder α) (p : Program α) (values : List α) : Prop where
  lower : ∀ v ∈ p.vars, (Scalar.ceil v.lower : Int64).toInt = ⌈value v.lower⌉
  upper : ∀ v ∈ p.vars, ∀ u ∈ v.upper, (Scalar.floor u : Int64).toInt = ⌊value u⌋
  quantity : Rounds p → ∀ x ∈ values, (Scalar.round x : Int64).toInt = Scalar.nearestInt (value x)
  rounded : Rounds p → List.Forall₂ (fun (vq : Variable α × α) n =>
    n.toInt = vq.1.exact.nearestUnits (value vq.2)) (p.vars.zip values) (roundedPoint p values)
  below : r.Searches p values → ∀ n ∈ roundedPoint p values,
    (n - Int64.ofNat r.radius.toNat).toInt = n.toInt - r.radius.toNat
  above : r.Searches p values → ∀ n ∈ roundedPoint p values,
    (n + Int64.ofNat r.radius.toNat).toInt = n.toInt + r.radius.toNat
  box : r.Searches p values → List.Forall₂ (fun (vq : Variable α × α) side =>
    side.span = r.span vq.1 (vq.1.exact.nearestUnits (value vq.2)) ∧
      side.Surrounds (vq.1.exact.nearestUnits (value vq.2)) r.radius.toNat)
    (p.vars.zip values) (r.neighbourhood p (roundedPoint p values))

/-- **Numbers that machine integers have room for**, with the radius on top where there is a search. -/
structure Rounder.HasRoom (r : Rounder α) (p : Program α) (values : List α) : Prop where
  lower : ∀ v ∈ p.vars, ⌈value v.lower⌉ < 2 ^ 63
  upper : ∀ v ∈ p.vars, ∀ u ∈ v.upper, ⌊value u⌋ < 2 ^ 63
  quantity : Rounds p → ∀ x ∈ values, Word (Scalar.nearestInt (value x))
  reach : r.Searches p values → ∀ vq ∈ p.vars.zip values,
    vq.1.exact.nearestUnits (value vq.2) + r.radius.toNat < 2 ^ 63

/-! ## One variable -/

section Variable

variable {v : Variable α} (proper : v.Proper)
include proper

theorem ceil_lower_nonneg : 0 ≤ ⌈value v.lower⌉ := by
  have le := ExactUnits.value_le ExactUnits.isFinite_zero proper.finite proper.nonneg
  rw [ExactUnits.value_zero] at le
  exact Int.ceil_nonneg le

theorem floor_upper_nonneg {u : α} (hu : u ∈ v.upper) : 0 ≤ ⌊value u⌋ := by
  obtain ⟨finite, ordered⟩ := proper.upper u hu
  have le := ExactUnits.value_le ExactUnits.isFinite_zero proper.finite proper.nonneg
  rw [ExactUnits.value_zero] at le
  exact Int.floor_nonneg.mpr (le.trans (ExactUnits.value_le proper.finite finite ordered))

theorem toInt_ceil_lower_iff :
    (Scalar.ceil v.lower : Int64).toInt = ⌈value v.lower⌉ ↔ ⌈value v.lower⌉ < 2 ^ 63 := by
  rw [ExactUnits.toInt_ceil proper.finite, held_eq_iff, word_iff_of_nonneg (ceil_lower_nonneg proper)]

theorem toInt_floor_upper_iff {u : α} (hu : u ∈ v.upper) :
    (Scalar.floor u : Int64).toInt = ⌊value u⌋ ↔ ⌊value u⌋ < 2 ^ 63 := by
  rw [ExactUnits.toInt_floor (proper.upper u hu).1, held_eq_iff,
    word_iff_of_nonneg (floor_upper_nonneg proper hu)]

/-- **A rounded quantity of any size** is the nearest whole number within the bounds, held to the range
of machine integers. -/
theorem toInt_clamp_round {x : α} (hx : Scalar.isFinite x = true) :
    ((UnitRange.ofVariable v).clamp (Scalar.round x)).toInt = held (v.exact.nearestUnits (value x)) := by
  unfold UnitRange.clamp UnitRange.ofVariable Variable.nearestUnits Variable.exact
  cases hu : v.upper with
  | none =>
    simp only [Option.map_none]
    rw [toInt_max, ExactUnits.toInt_round hx, ExactUnits.toInt_ceil proper.finite, held_max]
  | some u =>
    simp only [Option.map_some]
    rw [toInt_min, toInt_max, ExactUnits.toInt_round hx, ExactUnits.toInt_ceil proper.finite,
      ExactUnits.toInt_floor (proper.upper u hu).1, held_min, held_max]

/-- The nearest whole number is in range where the bounds and the quantity are. -/
theorem held_nearestUnits {x : α} (lower : ⌈value v.lower⌉ < 2 ^ 63)
    (upper : ∀ u ∈ v.upper, ⌊value u⌋ < 2 ^ 63) (quantity : Word (Scalar.nearestInt (value x))) :
    held (v.exact.nearestUnits (value x)) = v.exact.nearestUnits (value x) := by
  have least := held_eq_iff.mpr ((word_iff_of_nonneg (ceil_lower_nonneg proper)).mpr lower)
  have nearest := held_eq_iff.mpr quantity
  unfold Variable.nearestUnits Variable.exact
  cases hu : v.upper with
  | none =>
    simp only [Option.map_none]
    rw [held_max, nearest, least]
  | some u =>
    have greatest := held_eq_iff.mpr
      ((word_iff_of_nonneg (floor_upper_nonneg proper hu)).mpr (upper u hu))
    simp only [Option.map_some]
    rw [held_min, held_max, nearest, least, greatest]

/-- A rounded number is not negative, so there is room for the step downwards. -/
theorem toInt_clamp_nonneg (has : HasRange v) (k : Int64) :
    0 ≤ ((UnitRange.ofVariable v).clamp k).toInt := by
  have least : 0 ≤ held ⌈value v.lower⌉ := by
    have nonneg := ceil_lower_nonneg proper
    unfold held
    omega
  rw [← ExactUnits.toInt_ceil proper.finite] at least
  exact least.trans (clamp_bounds has k).1

end Variable

/-! ## All variables -/

section Program

variable {r : Rounder α} {p : Program α} {values : List α} (valid : p.WellFormed)
  (finite : ∀ x ∈ values, Scalar.isFinite x = true)
include valid finite

/-- **The rounded point, whatever the sizes are.** -/
theorem roundedPoint_held : List.Forall₂ (fun (vq : Variable α × α) (n : Int64) =>
    n.toInt = held (vq.1.exact.nearestUnits (value vq.2)))
    (p.vars.zip values) (Rounder.roundedPoint p values) := by
  rw [roundedPoint_eq, List.forall₂_map_right_iff, List.forall₂_same]
  intro vq mem
  obtain ⟨hv, hq⟩ := List.of_mem_zip (a := vq.1) (b := vq.2) mem
  exact toInt_clamp_round (valid.bounds _ hv) (finite _ hq)

theorem toInt_clamp_round_of_hasRoom (room : r.HasRoom p values) (rounds : Rounds p)
    {vq : Variable α × α} (mem : vq ∈ p.vars.zip values) :
    ((UnitRange.ofVariable vq.1).clamp (Scalar.round vq.2)).toInt =
      vq.1.exact.nearestUnits (value vq.2) := by
  obtain ⟨hv, hq⟩ := List.of_mem_zip (a := vq.1) (b := vq.2) mem
  have proper := valid.bounds _ hv
  rw [toInt_clamp_round proper (finite _ hq),
    held_nearestUnits proper (room.lower _ hv) (room.upper _ hv) (room.quantity rounds _ hq)]

theorem faithful_of_hasRoom (room : r.HasRoom p values) : r.Faithful p values := by
  have short := r.radius.toNat_lt
  have distance := toInt_radius r.radius
  have nearest := toInt_clamp_round_of_hasRoom valid finite room
  have nonneg (rounds : Rounds p) {vq : Variable α × α} (mem : vq ∈ p.vars.zip values) :
      0 ≤ ((UnitRange.ofVariable vq.1).clamp (Scalar.round vq.2)).toInt :=
    have hv := (List.of_mem_zip (a := vq.1) (b := vq.2) mem).1
    toInt_clamp_nonneg (valid.bounds _ hv) (rounds _ hv) _
  constructor
  case lower => exact fun v hv => (toInt_ceil_lower_iff (valid.bounds v hv)).mpr (room.lower v hv)
  case upper => exact fun v hv u hu => (toInt_floor_upper_iff (valid.bounds v hv) hu).mpr (room.upper v hv u hu)
  case quantity =>
    intro rounds x hx
    rw [ExactUnits.toInt_round (finite x hx), held_eq_iff.mpr (room.quantity rounds x hx)]
  case rounded =>
    intro rounds
    rw [roundedPoint_eq, List.forall₂_map_right_iff, List.forall₂_same]
    exact fun vq mem => nearest rounds mem
  case below =>
    intro searches
    rw [roundedPoint_eq, List.forall_mem_map]
    intro vq mem
    have nonneg := nonneg searches.1 mem
    have small := Int64.toInt_lt ((UnitRange.ofVariable vq.1).clamp (Scalar.round vq.2))
    rw [toInt_sub_of_bounds] <;> omega
  case above =>
    intro searches
    rw [roundedPoint_eq, List.forall_mem_map]
    intro vq mem
    have nonneg := nonneg searches.1 mem
    have reach := room.reach searches vq mem
    rw [← nearest searches.1 mem] at reach
    rw [toInt_add_of_bounds] <;> omega
  case box =>
    intro searches
    rw [neighbourhood_roundedPoint, List.forall₂_map_right_iff, List.forall₂_same]
    intro vq mem
    have has := searches.1 _ (List.of_mem_zip (a := vq.1) (b := vq.2) mem).1
    have nonneg := nonneg searches.1 mem
    have reach := room.reach searches vq mem
    obtain ⟨atLeast, atMost⟩ := clamp_bounds has (Scalar.round vq.2)
    rw [← nearest searches.1 mem] at reach ⊢
    have span := (span_around (r := r) has rfl (by omega) reach).1
    refine ⟨span, ?_⟩
    have low := congrArg Span.low span
    have high := congrArg Span.high span
    simp only [Side.span, Rounder.span] at low high
    cases hu : vq.1.upper with
    | none =>
      simp only [hu] at high
      exact ⟨by omega, by omega, by omega, by omega⟩
    | some u =>
      have inside := atMost u hu
      simp only [hu] at high
      exact ⟨by omega, by omega, by omega, by omega⟩

theorem hasRoom_of_faithful (faithful : r.Faithful p values) : r.HasRoom p values := by
  constructor
  case lower =>
    exact fun v hv => (toInt_ceil_lower_iff (valid.bounds v hv)).mp (faithful.lower v hv)
  case upper =>
    exact fun v hv u hu => (toInt_floor_upper_iff (valid.bounds v hv) hu).mp (faithful.upper v hv u hu)
  case quantity =>
    intro rounds x hx
    have same := faithful.quantity rounds x hx
    rw [ExactUnits.toInt_round (finite x hx)] at same
    exact held_eq_iff.mp same
  case reach =>
    intro searches vq mem
    have rounded := faithful.rounded searches.1
    have above := faithful.above searches
    rw [roundedPoint_eq, List.forall₂_map_right_iff, List.forall₂_same] at rounded
    rw [roundedPoint_eq, List.forall_mem_map] at above
    rw [← rounded vq mem, ← above vq mem]
    exact Int64.toInt_lt _

end Program

/-- **Whole numbers are what they stand for as long as there is room for them, and no longer**, for
every valid program, every solution with finite quantities and every rounder. Without room, a rounded
quantity is the nearest whole number held to the range. What is not rounded or searched has no say in
the allocation. -/
theorem rounding_faithful_iff (r : Rounder α) (p : Program α) (valid : p.flaw? = none) (s : Solution α)
    (finite : ∀ x ∈ s.values, Scalar.isFinite x = true) :
    (r.Faithful p s.values ↔ r.HasRoom p s.values) ∧
      List.Forall₂ (fun (vq : Variable α × α) (n : Int64) =>
        n.toInt = held (vq.1.exact.nearestUnits (value vq.2)))
        (p.vars.zip s.values) (Rounder.roundedPoint p s.values) ∧
      (¬Rounds p → ∀ continuous ∈ s.optimum? p.vars.length,
        r.allocate p s = .absent p .exhausted (some continuous) 0 false) ∧
      (¬r.Searches p s.values → ∀ radius : UInt32,
        Rounder.allocate { r with radius } p s = r.allocate p s) := by
  have h := p.flaw?_eq_none_iff.mp valid
  exact ⟨⟨hasRoom_of_faithful h finite, faithful_of_hasRoom h finite⟩, roundedPoint_held h finite,
    fun not continuous optimum => allocate_of_not_rounds not optimum,
    fun not radius => allocate_of_not_searches not radius⟩

/-- As many shelves as a board of five feet gives, at two feet each. -/
def shelves : Program Float where
  vars := [⟨"shelves", 0, none⟩]
  objective := ⟨.maximize, [1]⟩
  constraints := [⟨"board", [2], .atMost, 5⟩]

/-- Three shelves are too many, and the numbers around three are searched. -/
theorem rounding_faithful_iff_shelves :
    (shelves.flaw? = none ∧
      (∀ x ∈ (Simplex.solve .default shelves).values, Scalar.isFinite x = true) ∧
      Rounder.Searches ⟨2, 100, 1e-6⟩ shelves (Simplex.solve .default shelves).values) ∧
    Rounder.HasRoom ⟨2, 100, 1e-6⟩ shelves (Simplex.solve .default shelves).values ∧
    Rounder.Faithful ⟨2, 100, 1e-6⟩ shelves (Simplex.solve .default shelves).values := by
  have valid : shelves.flaw? = none := by decide +kernel
  have finite : ∀ x ∈ (Simplex.solve .default shelves).values, Scalar.isFinite x = true := by
    decide +kernel
  have searches : Rounder.Searches ⟨2, 100, 1e-6⟩ shelves (Simplex.solve .default shelves).values := by
    decide +kernel
  have room : Rounder.HasRoom ⟨2, 100, 1e-6⟩ shelves (Simplex.solve .default shelves).values :=
    ⟨by decide +kernel, by decide +kernel, fun _ => by decide +kernel, fun _ => by decide +kernel⟩
  obtain ⟨faithful, -⟩ := rounding_faithful_iff ⟨2, 100, 1e-6⟩ shelves valid
    (Simplex.solve .default shelves) finite
  exact ⟨⟨valid, finite, searches⟩, room, faithful.mpr room⟩

/-- As much as possible of one quantity, which may be ten to the nineteenth. -/
def towering : Program Float where
  vars := [⟨"x", 0, some 1e19⟩]
  objective := ⟨.maximize, [1]⟩
  constraints := []

/-- **Without room, rounding is not to the nearest whole number**: the optimum of a valid program is at
the upper bound, which is a whole number, and what it is rounded to is the greatest machine integer. -/
theorem towering_unfaithful :
    (towering.flaw? = none ∧ ((Simplex.solve .default towering).optimum? towering.vars.length).isSome = true ∧
      ∀ x ∈ (Simplex.solve .default towering).values, Scalar.isFinite x = true) ∧
    ((towering.vars.zip (Simplex.solve .default towering).values).map fun vq =>
      vq.1.exact.nearestUnits (value vq.2)) = [10 ^ 19] ∧
    (Rounder.roundedPoint towering (Simplex.solve .default towering).values).map (·.toInt) = [2 ^ 63 - 1] ∧
    ¬Rounder.Faithful ⟨2, 1000000, 1e-6⟩ towering (Simplex.solve .default towering).values := by
  refine ⟨⟨by decide +kernel, by decide +kernel, by decide +kernel⟩, by decide +kernel, by decide +kernel,
    fun faithful => ?_⟩
  have upper := faithful.upper ⟨"x", 0, some 1e19⟩ (List.mem_singleton.mpr rfl) 1e19 rfl
  exact absurd upper (by decide +kernel)

end WholeUnits

end Allotment
