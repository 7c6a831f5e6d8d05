import Allotment.Proofs.WholeUnits.Allocation

/-!
# How good the point is that a search takes

The search keeps the best candidate so far, and objectives that differ by no more than a tie width
count as the same, so that the nearer point takes the lead. This is no order: each time a nearer
candidate with a lesser objective takes the lead the search concedes up to one tie width, and
concessions add up (`searched_outdone`). What holds of every search is that the point it takes is
behind by no more than one tie width and one for each concession. Without a concession it is the best
up to a tie, and no other point of its objective is nearer; and there is none where objectives that
differ at all differ by more than a tie width, as those of whole numbers do.
-/

namespace Allotment.WholeUnits
set_option autoImplicit false

namespace Best

/-- By how much objectives may differ from this one and count as the same. -/
def width (objective : ℚ) : ℚ := tieWidth * (1 + |objective|)

/-- What a point is in the comparison, if it passes the test of feasibility. -/
def of? (p : Program ℚ) (tolerance : ℚ) (values : List ℚ) (units : List Int64) : Option (Best ℚ) :=
  (objectiveAt? p tolerance units).map fun objective =>
    { units, objective, distance := WholeUnits.distance units values }

/-- The lead after one more candidate. -/
def keep (sense : Sense) (b c : Best ℚ) : Best ℚ := if c.beats sense b then c else b

/-- **How often the lead passes to a candidate with a lesser objective**, because it is nearer. -/
def concessions (sense : Sense) : Best ℚ → List (Best ℚ) → ℕ
  | _, [] => 0
  | b, c :: rest =>
    (if c.beats sense b = true ∧ sense.improvement c.objective b.objective < 0 then 1 else 0) +
      concessions sense (keep sense b c) rest

/-- **Objectives that differ at all differ by more than a tie width.** -/
def Separated (contenders : List (Best ℚ)) : Prop :=
  ∀ a ∈ contenders, ∀ b ∈ contenders, a.objective ≠ b.objective →
    tieWidth * (1 + max |a.objective| |b.objective|) < |a.objective - b.objective|

instance (contenders : List (Best ℚ)) : Decidable (Separated contenders) :=
  inferInstanceAs (Decidable (∀ a ∈ contenders, ∀ b ∈ contenders, _ → _))

/-! ## One comparison -/

theorem tieWidth_pos : (0 : ℚ) < tieWidth := by norm_num [tieWidth]

theorem tieWidth_le_one : (tieWidth : ℚ) ≤ 1 := by norm_num [tieWidth]

theorem width_pos (objective : ℚ) : 0 < width objective :=
  mul_pos tieWidth_pos (by linarith [abs_nonneg objective])

theorem improvement_self (sense : Sense) (a : ℚ) : sense.improvement a a = 0 := by
  rw [Sense.improvement, sub_self, mul_zero]

theorem improvement_add (sense : Sense) (a b c : ℚ) :
    sense.improvement a b + sense.improvement b c = sense.improvement a c := by
  unfold Sense.improvement
  ring

theorem improvement_swap (sense : Sense) (a b : ℚ) :
    sense.improvement a b = -sense.improvement b a := by
  unfold Sense.improvement
  ring

theorem abs_improvement (sense : Sense) (a b : ℚ) : |sense.improvement a b| = |a - b| :=
  Sense.abs_sign_mul sense _

/-- The width changes by less than the objective does. -/
theorem width_sub_le (sense : Sense) (a b : ℚ) : width a - width b ≤ |sense.improvement b a| := by
  have apart : |a| - |b| ≤ |b - a| := (abs_sub_abs_le_abs_sub a b).trans_eq (abs_sub_comm a b)
  rw [abs_improvement]
  calc width a - width b = tieWidth * (|a| - |b|) := by unfold width; ring
    _ ≤ tieWidth * |b - a| := mul_le_mul_of_nonneg_left apart tieWidth_pos.le
    _ ≤ 1 * |b - a| := mul_le_mul_of_nonneg_right tieWidth_le_one (abs_nonneg _)
    _ = |b - a| := one_mul _

variable {sense : Sense} {b c : Best ℚ}

theorem beats_iff : c.beats sense b = true ↔
    width b.objective < sense.improvement c.objective b.objective ∨
      |sense.improvement c.objective b.objective| ≤ width b.objective ∧ c.distance < b.distance := by
  simp only [beats, width, Scalar.abs_rat, Bool.or_eq_true, Bool.and_eq_true, decide_eq_true_eq]

theorem keep_of_beats (h : c.beats sense b = true) : keep sense b c = c := if_pos h

theorem keep_of_not_beats (h : ¬c.beats sense b = true) : keep sense b c = b := if_neg h

theorem mem_of_mem_keep {x : Best ℚ} {rest : List (Best ℚ)} (mem : x ∈ keep sense b c :: rest) :
    x ∈ b :: c :: rest := by
  by_cases lead : c.beats sense b = true
  · rw [keep_of_beats lead] at mem
    exact List.mem_cons_of_mem _ mem
  · rw [keep_of_not_beats lead] at mem
    obtain rfl | later := List.mem_cons.mp mem
    · exact List.mem_cons_self
    · exact List.mem_cons_of_mem _ (List.mem_cons_of_mem _ later)

/-- Who takes the lead gives up no more than a tie width. -/
theorem neg_width_le_of_beats (h : c.beats sense b = true) :
    -width b.objective ≤ sense.improvement c.objective b.objective := by
  obtain more | ⟨tied, -⟩ := beats_iff.mp h
  · linarith [width_pos b.objective]
  · exact (abs_le.mp tied).1

/-- Who does not take the lead is ahead by no more than a tie width. -/
theorem improvement_le_of_not_beats (h : ¬c.beats sense b = true) :
    sense.improvement c.objective b.objective ≤ width b.objective :=
  not_lt.mp fun more => h (beats_iff.mpr (.inl more))

/-- Who does not take the lead in a tie is no nearer. -/
theorem distance_le_of_not_beats (h : ¬c.beats sense b = true)
    (ahead : 0 ≤ sense.improvement c.objective b.objective) : b.distance ≤ c.distance := by
  refine not_lt.mp fun nearer => h (beats_iff.mpr (.inr ⟨?_, nearer⟩))
  rw [abs_of_nonneg ahead]
  exact improvement_le_of_not_beats h

/-! ## The whole comparison -/

section Run

variable {rest : List (Best ℚ)}

theorem concessions_cons : concessions sense b (c :: rest) =
    (if c.beats sense b = true ∧ sense.improvement c.objective b.objective < 0 then 1 else 0) +
      concessions sense (keep sense b c) rest := rfl

theorem foldl_keep_mem (sense : Sense) (b : Best ℚ) (rest : List (Best ℚ)) :
    rest.foldl (keep sense) b ∈ b :: rest := by
  induction rest generalizing b with
  | nil => exact List.mem_cons_self
  | cons c rest ih => exact mem_of_mem_keep (ih (keep sense b c))

section Widths

variable {bound : ℚ}

/-- **Who is in the lead falls behind by one tie width for each concession.** -/
theorem improvement_lead_le (widths : ∀ q ∈ b :: rest, width q.objective ≤ bound) :
    sense.improvement b.objective (rest.foldl (keep sense) b).objective ≤
      concessions sense b rest * bound := by
  induction rest generalizing b with
  | nil => simp [concessions, improvement_self]
  | cons c rest ih =>
    obtain ⟨first, others⟩ := List.forall_mem_cons.mp widths
    rw [List.foldl_cons, concessions_cons, Nat.cast_add, add_mul]
    -- a new lead is behind the old one only by a concession, which the first summand counts
    by_cases lead : c.beats sense b = true
    · rw [keep_of_beats lead, ← improvement_add sense b.objective c.objective]
      refine add_le_add ?_ (ih others)
      have given := neg_width_le_of_beats lead
      rw [improvement_swap]
      split
      · push_cast
        linarith
      · next kept =>
        push_cast
        linarith [not_lt.mp fun less => kept ⟨lead, less⟩]
    · rw [keep_of_not_beats lead, if_neg fun conceded => lead conceded.1, Nat.cast_zero, zero_mul, zero_add]
      exact ih (List.forall_mem_cons.mpr ⟨first, (List.forall_mem_cons.mp others).2⟩)

/-- **No contender is ahead of the last lead by more than one tie width and one for each concession.** -/
theorem improvement_contender_le (widths : ∀ q ∈ b :: rest, width q.objective ≤ bound) {q : Best ℚ}
    (mem : q ∈ b :: rest) :
    sense.improvement q.objective (rest.foldl (keep sense) b).objective ≤
      (concessions sense b rest + 1) * bound := by
  have nonneg : 0 ≤ bound := (width_pos _).le.trans (widths b List.mem_cons_self)
  induction rest generalizing b with
  | nil =>
    obtain rfl := List.mem_singleton.mp mem
    simpa [concessions, improvement_self] using nonneg
  | cons c rest ih =>
    -- a contender is behind the lead once it has been compared, and the lead falls behind from there
    obtain rfl | later := List.mem_cons.mp mem
    · have behind : sense.improvement q.objective ((c :: rest).foldl (keep sense) q).objective ≤
          concessions sense q (c :: rest) * bound := improvement_lead_le widths
      linarith
    obtain ⟨first, others⟩ := List.forall_mem_cons.mp widths
    have more : (concessions sense (keep sense b c) rest : ℚ) ≤ concessions sense b (c :: rest) := by
      rw [concessions_cons]
      exact_mod_cast Nat.le_add_left _ _
    rw [List.foldl_cons]
    have step : sense.improvement q.objective (rest.foldl (keep sense) (keep sense b c)).objective ≤
        (concessions sense (keep sense b c) rest + 1) * bound := by
      by_cases lead : c.beats sense b = true
      · rw [keep_of_beats lead]
        exact ih others later
      · rw [keep_of_not_beats lead]
        have widths' : ∀ q ∈ b :: rest, width q.objective ≤ bound :=
          List.forall_mem_cons.mpr ⟨first, (List.forall_mem_cons.mp others).2⟩
        obtain rfl | later := List.mem_cons.mp later
        · have behind : sense.improvement b.objective (rest.foldl (keep sense) b).objective ≤
              concessions sense b rest * bound := improvement_lead_le widths'
          rw [← improvement_add sense q.objective b.objective]
          linarith [improvement_le_of_not_beats lead]
        · exact ih widths' (List.mem_cons_of_mem _ later)
    exact step.trans (mul_le_mul_of_nonneg_right (by linarith) nonneg)

end Widths

/-! ## Without a concession -/

theorem concessions_cons_eq_zero : concessions sense b (c :: rest) = 0 ↔
    (c.beats sense b = true → 0 ≤ sense.improvement c.objective b.objective) ∧
      concessions sense (keep sense b c) rest = 0 := by
  rw [concessions_cons, Nat.add_eq_zero_iff]
  refine and_congr_left fun _ => ?_
  by_cases lead : c.beats sense b = true <;> simp [lead]

/-- The last lead is at least as good as every earlier one. -/
theorem improvement_last_nonneg (kept : concessions sense b rest = 0) :
    0 ≤ sense.improvement (rest.foldl (keep sense) b).objective b.objective := by
  induction rest generalizing b with
  | nil => exact (improvement_self sense b.objective).ge
  | cons c rest ih =>
    obtain ⟨gains, kept'⟩ := concessions_cons_eq_zero.mp kept
    have later := ih kept'
    rw [List.foldl_cons]
    by_cases lead : c.beats sense b = true
    · rw [keep_of_beats lead] at later ⊢
      rw [← improvement_add sense _ c.objective]
      exact add_nonneg later (gains lead)
    · rwa [keep_of_not_beats lead] at later ⊢

/-- **The last lead is no further away than an earlier one that it is tied with.** -/
theorem distance_last_le (kept : concessions sense b rest = 0)
    (tied : sense.improvement (rest.foldl (keep sense) b).objective b.objective ≤ width b.objective) :
    (rest.foldl (keep sense) b).distance ≤ b.distance := by
  induction rest generalizing b with
  | nil => exact le_rfl
  | cons c rest ih =>
    obtain ⟨gains, kept'⟩ := concessions_cons_eq_zero.mp kept
    have later := improvement_last_nonneg kept'
    rw [List.foldl_cons] at tied ⊢
    by_cases lead : c.beats sense b = true
    · rw [keep_of_beats lead] at kept' later tied ⊢
      have gain := gains lead
      have narrower := width_sub_le sense b.objective c.objective
      rw [abs_of_nonneg gain] at narrower
      rw [← improvement_add sense _ c.objective] at tied
      -- had the new lead been ahead by the width, the last one would not be tied with the old one
      have nearer : c.distance < b.distance := by
        obtain more | ⟨-, nearer⟩ := beats_iff.mp lead
        · linarith
        · exact nearer
      exact (ih kept' (by linarith)).trans nearer.le
    · rw [keep_of_not_beats lead] at kept' tied ⊢
      exact ih kept' tied

/-- Without a concession the last lead is at least as good as the first, and no further away in a tie. -/
theorem lead_of_no_concession (kept : concessions sense b rest = 0) :
    sense.improvement b.objective (rest.foldl (keep sense) b).objective ≤
        width (rest.foldl (keep sense) b).objective ∧
      (b.objective = (rest.foldl (keep sense) b).objective →
        (rest.foldl (keep sense) b).distance ≤ b.distance) := by
  have ahead := improvement_last_nonneg kept
  refine ⟨?_, fun same => distance_last_le kept ?_⟩
  · rw [improvement_swap]
    linarith [width_pos (rest.foldl (keep sense) b).objective]
  · rw [same, improvement_self]
    exact (width_pos _).le

/-- **Without a concession the last lead is the best up to a tie**, and no contender of its objective
is nearer. -/
theorem best_of_no_concession (kept : concessions sense b rest = 0) {q : Best ℚ} (mem : q ∈ b :: rest) :
    sense.improvement q.objective (rest.foldl (keep sense) b).objective ≤
        width (rest.foldl (keep sense) b).objective ∧
      (q.objective = (rest.foldl (keep sense) b).objective →
        (rest.foldl (keep sense) b).distance ≤ q.distance) := by
  induction rest generalizing b with
  | nil =>
    obtain rfl := List.mem_singleton.mp mem
    exact lead_of_no_concession kept
  | cons c rest ih =>
    obtain rfl | later := List.mem_cons.mp mem
    · exact lead_of_no_concession kept
    obtain ⟨gains, kept'⟩ := concessions_cons_eq_zero.mp kept
    rw [List.foldl_cons]
    by_cases lead : c.beats sense b = true
    · rw [keep_of_beats lead] at kept' ⊢
      exact ih kept' later
    · rw [keep_of_not_beats lead] at kept' ⊢
      obtain rfl | later := List.mem_cons.mp later
      · -- compared with the old lead, whose width is no more than that of the last one and what is between
        have ahead := improvement_last_nonneg kept'
        have behind := improvement_le_of_not_beats lead
        have narrower := width_sub_le sense b.objective (rest.foldl (keep sense) b).objective
        rw [abs_of_nonneg ahead] at narrower
        refine ⟨?_, fun same => ?_⟩
        · rw [← improvement_add sense q.objective b.objective, improvement_swap sense b.objective]
          linarith
        · rw [← same] at ahead
          refine (distance_last_le kept' ?_).trans (distance_le_of_not_beats lead ahead)
          rwa [← same]
      · exact ih kept' (List.mem_cons_of_mem _ later)

/-- **Separated objectives make no concession necessary.** -/
theorem concessions_of_separated (separated : Separated (b :: rest)) : concessions sense b rest = 0 := by
  induction rest generalizing b with
  | nil => rfl
  | cons c rest ih =>
    refine concessions_cons_eq_zero.mpr ⟨fun lead => ?_, ih fun x hx y hy =>
      separated x (mem_of_mem_keep hx) y (mem_of_mem_keep hy)⟩
    by_contra less
    have differ : c.objective ≠ b.objective := by
      intro same
      rw [same, improvement_self] at less
      exact less le_rfl
    have apart := separated c (by simp) b (by simp) differ
    have tied := neg_width_le_of_beats lead
    have wider : width b.objective ≤ tieWidth * (1 + max |c.objective| |b.objective|) :=
      mul_le_mul_of_nonneg_left (by linarith [le_max_right |c.objective| |b.objective|]) tieWidth_pos.le
    rw [← abs_improvement sense, abs_of_neg (not_le.mp less)] at apart
    linarith

end Run

/-- **The best of some contenders**: none is ahead of it by more than a tie, and none of its objective
is nearer. -/
structure IsBest (sense : Sense) (contenders : List (Best ℚ)) (best : Best ℚ) : Prop where
  unbeaten : ∀ q ∈ contenders, sense.improvement q.objective best.objective ≤
    tieWidth * (1 + max |best.objective| |q.objective|)
  nearest : ∀ q ∈ contenders, q.objective = best.objective → best.distance ≤ q.distance

theorem isBest_of_no_concession {rest : List (Best ℚ)} (kept : concessions sense b rest = 0) :
    IsBest sense (b :: rest) (rest.foldl (keep sense) b) where
  unbeaten q mem := (best_of_no_concession kept mem).1.trans <|
    mul_le_mul_of_nonneg_left (by linarith [le_max_left |(rest.foldl (keep sense) b).objective| |q.objective|])
      tieWidth_pos.le
  nearest q mem := (best_of_no_concession kept mem).2

/-- Among separated objectives a tie is an equality. -/
theorem IsBest.improvement_nonpos {contenders : List (Best ℚ)} {best : Best ℚ}
    (isBest : IsBest sense contenders best) (mem : best ∈ contenders) (separated : Separated contenders)
    {q : Best ℚ} (hq : q ∈ contenders) : sense.improvement q.objective best.objective ≤ 0 := by
  by_contra ahead
  have differ : best.objective ≠ q.objective := by
    intro same
    rw [same, improvement_self] at ahead
    exact ahead le_rfl
  have apart := separated best mem q hq differ
  rw [abs_sub_comm, ← abs_improvement sense, abs_of_pos (not_le.mp ahead)] at apart
  exact absurd (isBest.unbeaten q hq) (not_le.mpr apart)

end Best

/-! ## The search -/

section Search

variable {r : Rounder ℚ} {p : Program ℚ} {s : Solution ℚ} {values : List ℚ}

/-- **The contenders of a search**: the candidates that pass the test of feasibility, in order. -/
def Rounder.contenders (r : Rounder ℚ) (p : Program ℚ) (values : List ℚ) : List (Best ℚ) :=
  (r.candidates p values).filterMap (Best.of? p r.tolerance values)

theorem mem_contenders_iff {q : Best ℚ} : q ∈ r.contenders p values ↔
    q.units ∈ r.candidates p values ∧ p.feasible (pointOf q.units) r.tolerance = true ∧
      q.objective = p.valueAt (pointOf q.units) ∧ q.distance = distance q.units values := by
  simp only [Rounder.contenders, List.mem_filterMap, Best.of?, Option.map_eq_some_iff, objectiveAt?_eq_some]
  constructor
  · rintro ⟨units, mem, objective, ⟨passes, rfl⟩, rfl⟩
    exact ⟨mem, passes, rfl, rfl⟩
  · rintro ⟨mem, passes, objective, distance⟩
    exact ⟨q.units, mem, _, ⟨passes, rfl⟩, by rw [← objective, ← distance]⟩

/-- How many concessions a search makes. -/
def Rounder.concessions (r : Rounder ℚ) (p : Program ℚ) (values : List ℚ) : ℕ :=
  match r.contenders p values with
  | [] => 0
  | b :: rest => Best.concessions p.objective.sense b rest

theorem examine_eq {tolerance : ℚ} {units : List Int64} (best : Option (Best ℚ)) :
    Best.examine p tolerance values best units = match Best.of? p tolerance values units with
      | none => best
      | some c => some ((best.map fun b => Best.keep p.objective.sense b c).getD c) := by
  unfold Best.examine Best.of? Best.keep
  cases objectiveAt? p tolerance units with
  | none => rfl
  | some objective =>
    cases best with
    | none => rfl
    | some b =>
      simp only [Option.map_some, Option.getD_some]
      split <;> rfl

/-- **A search compares its contenders one after the other.** -/
theorem foldl_examine_eq {tolerance : ℚ} (points : List (List Int64)) (b : Best ℚ) :
    points.foldl (Best.examine p tolerance values) (some b) =
      some ((points.filterMap (Best.of? p tolerance values)).foldl (Best.keep p.objective.sense) b) := by
  induction points generalizing b with
  | nil => rfl
  | cons units points ih =>
    rw [List.foldl_cons, examine_eq, List.filterMap_cons]
    cases Best.of? p tolerance values units with
    | none => exact ih b
    | some c => exact ih _

theorem foldl_examine_none_eq {tolerance : ℚ} (points : List (List Int64)) :
    points.foldl (Best.examine p tolerance values) none =
      match points.filterMap (Best.of? p tolerance values) with
      | [] => none
      | b :: rest => some (rest.foldl (Best.keep p.objective.sense) b) := by
  induction points with
  | nil => rfl
  | cons units points ih =>
    rw [List.foldl_cons, examine_eq, List.filterMap_cons]
    cases Best.of? p tolerance values units with
    | none => exact ih
    | some c => exact foldl_examine_eq points c

/-- What a search that succeeds has taken. -/
theorem exists_lead_of_searched (searched : (r.allocate p s).ending = .searched) :
    ∃ b rest, r.contenders p s.values = b :: rest ∧
      (r.allocate p s).units = (rest.foldl (Best.keep p.objective.sense) b).units ∧
      (r.allocate p s).objective = some (rest.foldl (Best.keep p.objective.sense) b).objective := by
  obtain ⟨best, result, units, objective⟩ := exists_result_of_searched searched
  rw [Rounder.search, Box.walk_result, foldl_examine_none_eq] at result
  change (match r.contenders p s.values with
    | [] => none
    | b :: rest => some (rest.foldl (Best.keep p.objective.sense) b)) = some best at result
  cases contenders : r.contenders p s.values with
  | nil =>
    rw [contenders] at result
    cases result
  | cons b rest =>
    rw [contenders] at result
    obtain rfl := Option.some.inj result
    exact ⟨b, rest, rfl, units, objective⟩

/-! ## Whole-number objectives -/

/-- A whole-unit point has a whole objective where the coefficients are whole. -/
theorem valueAt_pointOf_whole (whole : ∀ a ∈ p.objective.coefficients, ∃ n : ℤ, a = n)
    (units : List Int64) : ∃ n : ℤ, p.valueAt (pointOf units) = n := by
  rw [Program.valueAt, Objective.valueAt, dot, sum_rat, pointOf]
  generalize p.objective.coefficients = coefficients at whole
  induction coefficients generalizing units with
  | nil => exact ⟨0, by simp⟩
  | cons a coefficients ih =>
    cases units with
    | nil => exact ⟨0, by simp⟩
    | cons u units =>
      obtain ⟨⟨n, hn⟩, others⟩ := List.forall_mem_cons.mp whole
      obtain ⟨m, hm⟩ := ih units others
      refine ⟨n * u.toInt + m, ?_⟩
      rw [List.map_cons, List.zipWith_cons_cons, List.sum_cons, hm, hn]
      push_cast
      rfl

/-- **Where the coefficients of the objective are whole numbers, the contenders are separated**, as
long as none has an objective of a thousand million. -/
theorem separated_of_whole (whole : ∀ a ∈ p.objective.coefficients, ∃ n : ℤ, a = n)
    (moderate : ∀ q ∈ r.contenders p values, |q.objective| < 10 ^ 9 - 1) :
    Best.Separated (r.contenders p values) := by
  intro a ha b hb differ
  obtain ⟨-, -, aIs, -⟩ := mem_contenders_iff.mp ha
  obtain ⟨-, -, bIs, -⟩ := mem_contenders_iff.mp hb
  obtain ⟨n, hn⟩ := valueAt_pointOf_whole whole a.units
  obtain ⟨m, hm⟩ := valueAt_pointOf_whole whole b.units
  rw [hn] at aIs
  rw [hm] at bIs
  have apart : (1 : ℚ) ≤ |a.objective - b.objective| := by
    rw [aIs, bIs] at differ ⊢
    have distinct : n - m ≠ 0 := fun same => differ (by rw [sub_eq_zero.mp same])
    exact_mod_cast Int.one_le_abs distinct
  have larger : max |a.objective| |b.objective| < 10 ^ 9 - 1 := max_lt (moderate a ha) (moderate b hb)
  have narrow : Best.tieWidth * (1 + max |a.objective| |b.objective|) < (1 : ℚ) := by
    unfold Best.tieWidth
    linarith
  exact narrow.trans_le apart

end Search

/-- **What is known of the point that a search takes.** -/
structure Rounder.Takes (r : Rounder ℚ) (p : Program ℚ) (s : Solution ℚ) (best : Best ℚ) : Prop where
  contender : best ∈ r.contenders p s.values
  units : (r.allocate p s).units = best.units
  objective : (r.allocate p s).objective = some best.objective
  /-- No contender is ahead of it by more than one tie width and one for each concession. -/
  behind : ∀ bound, (∀ q ∈ r.contenders p s.values, Best.width q.objective ≤ bound) →
    ∀ q ∈ r.contenders p s.values, p.objective.sense.improvement q.objective best.objective ≤
      (r.concessions p s.values + 1) * bound
  /-- Without a concession it is the best of the contenders. -/
  isBest : r.concessions p s.values = 0 →
    Best.IsBest p.objective.sense (r.contenders p s.values) best
  /-- Where the objectives are separated there is no concession, and none is ahead of it at all. -/
  separated : Best.Separated (r.contenders p s.values) → r.concessions p s.values = 0 ∧
    ∀ q ∈ r.contenders p s.values, p.objective.sense.improvement q.objective best.objective ≤ 0

/-- **How good the point is that a search takes**, for every program, rounder and continuous
solution. -/
theorem searched_best (r : Rounder ℚ) (p : Program ℚ) (s : Solution ℚ)
    (searched : (r.allocate p s).ending = .searched) : ∃ best, r.Takes p s best := by
  obtain ⟨b, rest, contenders, units, objective⟩ := exists_lead_of_searched searched
  have count : r.concessions p s.values = Best.concessions p.objective.sense b rest := by
    rw [Rounder.concessions, contenders]
  have taken := Best.foldl_keep_mem p.objective.sense b rest
  refine ⟨rest.foldl (Best.keep p.objective.sense) b, ?_⟩
  constructor
  case contender => rwa [contenders]
  case units => exact units
  case objective => exact objective
  case behind =>
    rw [contenders, count]
    exact fun bound widths q mem => Best.improvement_contender_le widths mem
  case isBest =>
    rw [contenders, count]
    exact Best.isBest_of_no_concession
  case separated =>
    rw [contenders, count]
    intro separated
    have kept : Best.concessions p.objective.sense b rest = 0 :=
      Best.concessions_of_separated separated
    exact ⟨kept, fun q mem =>
      (Best.isBest_of_no_concession kept).improvement_nonpos taken separated mem⟩

/-- The shared budget buys two of one quantity, or one of each, or two of the other. -/
theorem searched_best_sharedBudget :
    (Rounder.allocate ⟨2, 100, 1e-6⟩ sharedBudget (Simplex.solve .default sharedBudget)).ending = .searched ∧
      ∃ best, Rounder.Takes ⟨2, 100, 1e-6⟩ sharedBudget (Simplex.solve .default sharedBudget) best := by
  have searched : (Rounder.allocate ⟨2, 100, 1e-6⟩ sharedBudget
      (Simplex.solve .default sharedBudget)).ending = .searched := by decide +kernel
  exact ⟨searched, searched_best _ _ _ searched⟩

/-- The continuous optimum is at three of `x`, and each `x` costs a little less than a tie. -/
def pinched : Program ℚ where
  vars := [⟨"x", 0, none⟩, ⟨"w", 0, some 0.5⟩]
  objective := ⟨.maximize, [-6e-10, 1]⟩
  constraints := [⟨"floor", [1, -6], .atLeast, 0⟩, ⟨"cap", [1, -2], .atMost, 2⟩]

/-- **The point that a search takes can be outdone by more than a tie**: of none, one and two of `x`
each comes nearer to three than the one before, at a cost within a tie, and so the search takes two of
`x` although none of it is better. -/
theorem searched_outdone :
    pinched.flaw? = none ∧ (Simplex.solve .default pinched).status = .optimal ∧
      (Rounder.allocate ⟨3, 1000000, 1e-6⟩ pinched (Simplex.solve .default pinched)).ending = .searched ∧
      (Rounder.allocate ⟨3, 1000000, 1e-6⟩ pinched (Simplex.solve .default pinched)).objective =
        some (-12e-10) ∧
      ∃ q ∈ Rounder.contenders ⟨3, 1000000, 1e-6⟩ pinched (Simplex.solve .default pinched).values,
        Best.tieWidth * (1 + max |-12e-10| |q.objective|) <
          pinched.objective.sense.improvement q.objective (-12e-10) := by
  have none : (⟨[0, 0], 0, 3.5⟩ : Best ℚ) ∈ Rounder.contenders ⟨3, 1000000, 1e-6⟩ pinched
      (Simplex.solve .default pinched).values := by decide +kernel
  refine ⟨by decide +kernel, by decide +kernel, by decide +kernel, by decide +kernel, _, none, ?_⟩
  norm_num [Best.tieWidth, pinched, Sense.improvement, Sense.sign, abs_of_neg]

end Allotment.WholeUnits
