import Allotment.Proofs.WholeUnits.Box

/-!
# The points of a box, one after the other

The points of a box are numbered like the readings of a counter: `reading` is the point of a number,
`rank` the number of a point, and each undoes the other. A walk visits the points in the order of
their numbers: the corner has number zero, `next?` adds one, and it fails at the last number only. So
a walk under a cap visits the first points of the list of all readings, as many as the cap allows,
and is cut short just when there are more of them (`walk_eq`).
-/

namespace Allotment.WholeUnits
set_option autoImplicit false

/-! ## Readings of a counter -/

/-- A range of whole numbers, both ends included. -/
structure Span where
  low : ℤ
  high : ℤ
  deriving DecidableEq, Repr

namespace Span

/-- How many numbers there are. -/
def count (s : Span) : ℕ := (s.high + 1 - s.low).toNat

/-- A number of the range. -/
def Contains (s : Span) (n : ℤ) : Prop := s.low ≤ n ∧ n ≤ s.high

instance (s : Span) (n : ℤ) : Decidable (s.Contains n) := inferInstanceAs (Decidable (_ ∧ _))

variable {s : Span}

theorem contains_add {k : ℕ} : s.Contains (s.low + k) ↔ k < s.count := by
  unfold Contains count
  omega

theorem Contains.sub_lt {n : ℤ} (h : s.Contains n) : (n - s.low).toNat < s.count := by
  unfold Contains at h
  unfold count
  omega

theorem Contains.low_add {n : ℤ} (h : s.Contains n) : s.low + (n - s.low).toNat = n := by
  unfold Contains at h
  omega

end Span

/-- How many points the ranges have together. -/
def size (spans : List Span) : ℕ := (spans.map (·.count)).prod

/-- A point with one number out of each range. -/
def InSpans (spans : List Span) (x : List ℤ) : Prop := List.Forall₂ Span.Contains spans x

/-- **The point of a number**: the first coordinate moves with every step, and each later one when the
one before it has been through its range. -/
def reading : List Span → ℕ → List ℤ
  | [], _ => []
  | s :: spans, k => (s.low + (k % s.count : ℕ)) :: reading spans (k / s.count)

/-- **All points of the ranges in order.** -/
def readings (spans : List Span) : List (List ℤ) := (List.range (size spans)).map (reading spans)

/-- The number of a point. -/
def rank : List Span → List ℤ → ℕ
  | s :: spans, n :: x => (n - s.low).toNat + s.count * rank spans x
  | _, _ => 0

/-- **A point comes before another**: later coordinates count for more than earlier ones. -/
def Precedes : List ℤ → List ℤ → Prop
  | n :: x, m :: y => Precedes x y ∨ x = y ∧ n < m
  | _, _ => False

section Readings

variable {spans : List Span} {x : List ℤ}

theorem length_readings : (readings spans).length = size spans := by simp [readings]

theorem size_cons (s : Span) (spans : List Span) : size (s :: spans) = s.count * size spans := by
  simp [size]

theorem rank_lt (inside : InSpans spans x) : rank spans x < size spans := by
  induction inside with
  | nil => simp [rank, size]
  | @cons s n spans x first _ ih =>
    have digit := first.sub_lt
    rw [rank, size_cons]
    calc (n - s.low).toNat + s.count * rank spans x < s.count + s.count * rank spans x := by omega
      _ = s.count * (rank spans x + 1) := by ring
      _ ≤ s.count * size spans := Nat.mul_le_mul_left _ ih

theorem reading_rank (inside : InSpans spans x) : reading spans (rank spans x) = x := by
  induction inside with
  | nil => rfl
  | @cons s n spans x first _ ih =>
    have digit := first.sub_lt
    have pos : 0 < s.count := by omega
    rw [rank, reading, Nat.add_mul_mod_self_left, Nat.mod_eq_of_lt digit, first.low_add,
      Nat.add_mul_div_left _ _ pos, Nat.div_eq_of_lt digit, Nat.zero_add, ih]

theorem inSpans_reading {k : ℕ} (h : k < size spans) : InSpans spans (reading spans k) := by
  induction spans generalizing k with
  | nil => exact .nil
  | cons s spans ih =>
    rw [size_cons] at h
    have pos : 0 < s.count := Nat.pos_of_mul_pos_right (Nat.zero_lt_of_lt h)
    exact .cons (Span.contains_add.mpr (Nat.mod_lt k pos)) (ih (Nat.div_lt_of_lt_mul h))

/-- **The list of all points holds the points of the ranges and no other.** -/
theorem mem_readings_iff : x ∈ readings spans ↔ InSpans spans x := by
  unfold readings
  constructor
  · intro mem
    obtain ⟨k, hk, rfl⟩ := List.mem_map.mp mem
    exact inSpans_reading (List.mem_range.mp hk)
  · intro inside
    exact List.mem_map.mpr ⟨rank spans x, List.mem_range.mpr (rank_lt inside), reading_rank inside⟩

theorem precedes_irrefl (x : List ℤ) : ¬Precedes x x := by
  induction x with
  | nil => exact id
  | cons n x ih =>
    rintro (before | ⟨-, less⟩)
    · exact ih before
    · exact absurd less (lt_irrefl n)

theorem precedes_reading {k l : ℕ} (hl : l < size spans) (less : k < l) :
    Precedes (reading spans k) (reading spans l) := by
  induction spans generalizing k l with
  | nil =>
    simp only [size, List.map_nil, List.prod_nil] at hl
    omega
  | cons s spans ih =>
    rw [size_cons] at hl
    have split_k := Nat.div_add_mod k s.count
    have split_l := Nat.div_add_mod l s.count
    obtain carried | same := (Nat.div_le_div_right (c := s.count) less.le).lt_or_eq
    · exact .inl (ih (Nat.div_lt_of_lt_mul hl) carried)
    · -- no carry, so the first coordinate is what moved
      refine .inr ⟨by rw [same], ?_⟩
      rw [same] at split_k
      omega

/-- **The points are listed in order**, so none is listed twice. -/
theorem readings_ordered (spans : List Span) : (readings spans).Pairwise Precedes := by
  rw [readings, List.pairwise_map]
  refine List.pairwise_lt_range.imp_of_mem fun _ hl less => ?_
  exact precedes_reading (List.mem_range.mp hl) less

example : readings [⟨1, 2⟩, ⟨0, 1⟩] = [[1, 0], [2, 0], [1, 1], [2, 1]] := by decide

theorem readings_nodup (spans : List Span) : (readings spans).Nodup := by
  refine (readings_ordered spans).imp ?_
  rintro x y before rfl
  exact precedes_irrefl x before

end Readings

/-! ## Walks -/

/-- The range of a side. -/
def Side.span (side : Side) : Span := ⟨side.low.toInt, side.high.toInt⟩

/-- The whole numbers that the units of a point stand for. -/
def numbers (x : List Int64) : List ℤ := x.map Int64.toInt

namespace Box

/-- The ranges of the sides. -/
def spans (box : Box) : List Span := box.map Side.span

/-- **The points that a walk visits**, in order: what a walk leaves behind that writes them down. -/
def visited (box : Box) (cap : ℕ) : List (List Int64) :=
  (box.walk cap (fun seen x => seen ++ [x]) []).result

section Rank

variable {box : Box} {x : List Int64}

theorem inside_iff : box.Inside x ↔ InSpans box.spans (numbers x) := by
  rw [Inside, InSpans, spans, numbers, List.forall₂_map_left_iff, List.forall₂_map_right_iff]
  simp only [Side.span, Span.Contains, Int64.le_iff_toInt_le]

theorem rank_corner (box : Box) : rank box.spans (numbers box.corner) = 0 := by
  induction box with
  | nil => rfl
  | cons side sides ih =>
    have rest : rank (spans sides) (numbers (corner sides)) = 0 := ih
    simp only [spans, corner, numbers, List.map_cons, rank, Side.span] at rest ⊢
    rw [rest]
    omega

/-- **The next point has the next number**: a coordinate at the end of its range gives all of it back
and carries one to the next. -/
theorem rank_next (inside : box.Inside x) {y : List Int64} (h : next? box x = some y) :
    rank box.spans (numbers y) = rank box.spans (numbers x) + 1 := by
  induction inside generalizing y with
  | nil => cases h
  | @cons side n sides xs bounds rest ih =>
    have low := Int64.le_iff_toInt_le.mp bounds.1
    have high := Int64.le_iff_toInt_le.mp bounds.2
    unfold next? at h
    split at h
    · next more =>
      obtain rfl := Option.some.inj h
      simp only [spans, numbers, List.map_cons, rank, Side.span, toInt_succ_of_lt more]
      omega
    · next last =>
      obtain ⟨ys, next, rfl⟩ := Option.map_eq_some_iff.mp h
      have carried := ih next
      have top : n.toInt = side.high.toInt :=
        le_antisymm high (not_lt.mp fun less => last (Int64.lt_iff_toInt_lt.mpr less))
      simp only [spans, numbers, List.map_cons, rank] at carried ⊢
      rw [carried, Nat.mul_add, top]
      simp only [Side.span, Span.count]
      omega

/-- **Only the last point has no next one.** -/
theorem rank_last (inside : box.Inside x) (h : next? box x = none) :
    rank box.spans (numbers x) + 1 = size box.spans := by
  induction inside with
  | nil => rfl
  | @cons side n sides xs bounds rest ih =>
    have high := Int64.le_iff_toInt_le.mp bounds.2
    have low := Int64.le_iff_toInt_le.mp bounds.1
    unfold next? at h
    split at h
    · cases h
    · next last =>
      have carried := ih (Option.map_eq_none_iff.mp h)
      have top : n.toInt = side.high.toInt :=
        le_antisymm high (not_lt.mp fun less => last (Int64.lt_iff_toInt_lt.mpr less))
      simp only [spans, numbers, List.map_cons, rank] at carried ⊢
      rw [size_cons, ← carried, Nat.mul_add, top]
      simp only [Side.span, Span.count]
      omega

/-- **The points from a point on** are the readings from its number on. -/
theorem numbers_pointsFrom (inside : box.Inside x) (cap : ℕ) : (pointsFrom box cap x).map numbers =
    ((readings box.spans).drop (rank box.spans (numbers x))).take cap := by
  induction cap generalizing x with
  | zero => rfl
  | succ cap ih =>
    have inside' := inside_iff.mp inside
    have within : rank box.spans (numbers x) < (readings box.spans).length := by
      rw [length_readings]
      exact rank_lt inside'
    have here : (readings box.spans)[rank box.spans (numbers x)] = numbers x := by
      simp only [readings, List.getElem_map, List.getElem_range, reading_rank inside']
    rw [List.drop_eq_getElem_cons within, here, List.take_succ_cons]
    unfold pointsFrom
    rw [List.map_cons]
    congr 1
    cases next : next? box x with
    | none =>
      rw [rank_last inside next, ← length_readings, List.drop_length, List.take_nil]
      rfl
    | some y => rw [← rank_next inside next, ← ih (inside.next next)]

variable {σ : Type} (visit : σ → List Int64 → σ)

/-- **A walk is cut short just when more points are left than the cap allows.** -/
theorem walkFrom_truncated (inside : box.Inside x) (cap visited : ℕ) (start : σ) :
    (walkFrom box visit cap visited start x).truncated =
      decide (cap < size box.spans - rank box.spans (numbers x)) := by
  induction cap generalizing visited start x with
  | zero =>
    have left := rank_lt (inside_iff.mp inside)
    simp only [walkFrom]
    exact (decide_eq_true (by omega)).symm
  | succ cap ih =>
    unfold walkFrom
    cases next : next? box x with
    | none =>
      have last := rank_last inside next
      simp only
      exact (decide_eq_false (by omega)).symm
    | some y =>
      simp only
      rw [ih (inside.next next), rank_next inside next]
      congr 1
      apply propext
      omega

end Rank

section Walk

variable {box : Box} {cap : ℕ}

theorem visited_eq (box : Box) (cap : ℕ) : box.visited cap = pointsFrom box cap box.corner := by
  have recorded : ∀ (points seen : List (List Int64)),
      points.foldl (fun seen x => seen ++ [x]) seen = seen ++ points := by
    intro points
    induction points with
    | nil => intro seen; simp
    | cons x points ih => intro seen; rw [List.foldl_cons, ih, List.append_assoc]; rfl
  rw [visited, walk, walkFrom_result, recorded, List.nil_append]

/-- A walk does with the points that it visits what it is told to, one after the other. -/
theorem walk_result {σ : Type} (visit : σ → List Int64 → σ) (start : σ) :
    (box.walk cap visit start).result = (box.visited cap).foldl visit start := by
  rw [visited_eq, walk, walkFrom_result]

variable (ordered : ∀ side ∈ box, side.low ≤ side.high)
include ordered

/-- **A walk visits the first points of its box**, in order and as many as the cap allows. -/
theorem numbers_visited : (box.visited cap).map numbers = (readings box.spans).take cap := by
  rw [visited_eq, numbers_pointsFrom (inside_corner ordered), rank_corner, List.drop_zero]

theorem length_visited : (box.visited cap).length = min (size box.spans) cap := by
  rw [← List.length_map numbers, numbers_visited ordered, List.length_take, length_readings, min_comm]

/-- **What a walk leaves behind.** -/
theorem walk_eq {σ : Type} (visit : σ → List Int64 → σ) (start : σ) : box.walk cap visit start =
    { result := (box.visited cap).foldl visit start
      visited := min (size box.spans) cap
      truncated := decide (cap < size box.spans) } := by
  have count : (box.walk cap visit start).visited = min (size box.spans) cap := by
    rw [walk, walkFrom_visited, Nat.zero_add, ← visited_eq, length_visited ordered]
  have short : (box.walk cap visit start).truncated = decide (cap < size box.spans) := by
    rw [walk, walkFrom_truncated visit (inside_corner ordered), rank_corner, Nat.sub_zero]
  rw [← walk_result, ← count, ← short]

end Walk

end Box

end Allotment.WholeUnits
