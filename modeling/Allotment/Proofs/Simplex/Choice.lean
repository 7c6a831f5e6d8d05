import Allotment.Proofs.Simplex.Pivot
import Allotment.Simplex.Pivoting

/-!
# Which pivot is due

What is known of the column that enters, of the row that leaves, and of a tableau at which no pivot
is due. The entering column gains more than the tolerance, and the cautious rule takes the first
that does. The leaving row has an entry above the tolerance; without a tolerance it is, among the
rows that limit the column, the one that comes first by ratio and then by basic column.
-/

namespace Allotment.Simplex
set_option autoImplicit false

/-! ## The entering column -/

section Source

variable {α : Type} [Scalar α]

/-- The better of the best gain so far and the gain of a column. -/
def steeper (best : α × Option ℕ) (gained : α × ℕ) : α × Option ℕ :=
  if best.1 < gained.1 then (gained.1, some gained.2) else best

theorem steepest?_eq (tolerance : α) (gains : List α) :
    steepest? tolerance gains = (gains.zipIdx.foldl steeper (tolerance, none)).2 := rfl

/-- The fold ends where it started or at one of the columns. -/
theorem foldl_steeper_source (gained : List (α × ℕ)) (best : α × Option ℕ) :
    (gained.foldl steeper best).2 = best.2 ∨
      ∃ g ∈ gained, (gained.foldl steeper best).2 = some g.2 := by
  induction gained generalizing best with
  | nil => exact Or.inl rfl
  | cons g gained ih =>
    rw [List.foldl_cons]
    obtain kept | ⟨g', hg', place⟩ := ih (steeper best g)
    · by_cases steep : best.1 < g.1
      · have now : steeper best g = (g.1, some g.2) := if_pos steep
        exact Or.inr ⟨g, List.mem_cons_self, by rw [kept, now]⟩
      · have now : steeper best g = best := if_neg steep
        exact Or.inl (by rw [kept, now])
    · exact Or.inr ⟨g', List.mem_cons_of_mem _ hg', place⟩

theorem steepest?_lt {tolerance : α} {gains : List α} {j : ℕ}
    (h : steepest? tolerance gains = some j) : j < gains.length := by
  rw [steepest?_eq] at h
  obtain start | ⟨⟨gain, k⟩, mem, place⟩ := foldl_steeper_source gains.zipIdx (tolerance, none)
  · rw [start] at h
    cases h
  · rw [place] at h
    cases h
    have entry := List.mem_zipIdx_iff_getElem?.mp mem
    exact (List.getElem?_eq_some_iff.mp entry).1

theorem first?_lt {tolerance : α} {gains : List α} {j : ℕ}
    (h : first? tolerance gains = some j) : j < gains.length :=
  (List.findIdx?_eq_some_iff_getElem.mp h).1

end Source

/-- The fold over the gains from column `k` on: it exceeds every gain, and is either where it
started or at a column that gains more. -/
theorem foldl_steeper (gains : List ℚ) (k : ℕ) (best : ℚ × Option ℕ) :
    let out := (gains.zipIdx k).foldl steeper best
    best.1 ≤ out.1 ∧ (∀ gain ∈ gains, gain ≤ out.1) ∧
      (out = best ∨ ∃ i, out.2 = some (k + i) ∧ gains[i]? = some out.1 ∧ best.1 < out.1) := by
  induction gains generalizing k best with
  | nil => simp
  | cons gain gains ih =>
    rw [List.zipIdx_cons, List.foldl_cons]
    obtain ⟨above, exceeds, place⟩ := ih (k + 1) (steeper best (gain, k))
    by_cases steep : best.1 < gain
    · have now : steeper best (gain, k) = (gain, some k) := if_pos steep
      rw [now] at above exceeds place ⊢
      refine ⟨steep.le.trans above, List.forall_mem_cons.mpr ⟨above, exceeds⟩, Or.inr ?_⟩
      obtain same | ⟨i, column, entry, more⟩ := place
      · exact ⟨0, by simp [same], by simp [same], by simpa [same] using steep⟩
      · exact ⟨i + 1, by rw [column]; congr 1; omega, by simpa using entry, steep.trans more⟩
    · have now : steeper best (gain, k) = best := if_neg steep
      rw [now] at above exceeds place ⊢
      refine ⟨above, List.forall_mem_cons.mpr ⟨(not_lt.mp steep).trans above, exceeds⟩, ?_⟩
      obtain same | ⟨i, column, entry, more⟩ := place
      · exact Or.inl same
      · exact Or.inr ⟨i + 1, by rw [column]; congr 1; omega, by simpa using entry, more⟩

theorem steepest?_eq_none {tolerance : ℚ} {gains : List ℚ} (h : steepest? tolerance gains = none) :
    ∀ gain ∈ gains, gain ≤ tolerance := by
  obtain ⟨-, exceeds, same | ⟨i, column, -⟩⟩ := foldl_steeper gains 0 (tolerance, none)
  · rw [same] at exceeds
    exact exceeds
  · rw [steepest?_eq, column] at h
    cases h

theorem steepest?_eq_some {tolerance : ℚ} {gains : List ℚ} {j : ℕ}
    (h : steepest? tolerance gains = some j) : ∃ gain, gains[j]? = some gain ∧ tolerance < gain := by
  rw [steepest?_eq] at h
  obtain ⟨-, -, same | ⟨i, column, entry, more⟩⟩ := foldl_steeper gains 0 (tolerance, none)
  · rw [same] at h
    cases h
  · rw [column, zero_add] at h
    cases h
    exact ⟨_, entry, more⟩

theorem first?_eq_none {tolerance : ℚ} {gains : List ℚ} (h : first? tolerance gains = none) :
    ∀ gain ∈ gains, gain ≤ tolerance := by
  intro gain mem
  have fails := List.findIdx?_eq_none_iff.mp h gain mem
  simpa using fails

theorem first?_eq_some {tolerance : ℚ} {gains : List ℚ} {j : ℕ}
    (h : first? tolerance gains = some j) : (∃ gain, gains[j]? = some gain ∧ tolerance < gain) ∧
      ∀ k < j, ∀ gain, gains[k]? = some gain → gain ≤ tolerance := by
  obtain ⟨inside, holds, before⟩ := List.findIdx?_eq_some_iff_getElem.mp h
  refine ⟨⟨gains[j], List.getElem?_eq_getElem inside, by simpa using holds⟩, ?_⟩
  intro k hk gain hgain
  obtain ⟨_, rfl⟩ := List.getElem?_eq_some_iff.mp hgain
  simpa using before k hk

/-! ## The leaving row -/

namespace Candidate

/-- Candidates in the order in which they are preferred when there is no tolerance. -/
def key (c : Candidate ℚ) : ℚ ×ₗ ℕ := toLex (c.ratio, c.basic)

theorem beats_zero_iff (c best : Candidate ℚ) : c.beats 0 best = true ↔ c.key < best.key := by
  simp only [beats, key, Prod.Lex.toLex_lt_toLex, sub_zero, Scalar.abs_rat, Bool.or_eq_true,
    Bool.and_eq_true, decide_eq_true_eq]
  refine or_congr_right (and_congr_left fun _ => ?_)
  rw [abs_nonpos_iff, sub_eq_zero]

section Source

variable {α : Type} [Scalar α]

theorem choose_eq_some (tolerance : α) (best : Option (Candidate α)) (c : Candidate α) :
    ∃ d, choose tolerance best c = some d ∧ (d = c ∨ best = some d) := by
  cases best with
  | none => exact ⟨c, rfl, Or.inl rfl⟩
  | some b =>
    rw [choose]
    split
    · exact ⟨c, rfl, Or.inl rfl⟩
    · exact ⟨b, rfl, Or.inr rfl⟩

theorem mem_of_foldl_choose {tolerance : α} {cs : List (Candidate α)}
    {best : Option (Candidate α)} {c : Candidate α}
    (h : cs.foldl (choose tolerance) best = some c) : c ∈ cs ∨ best = some c := by
  induction cs generalizing best with
  | nil => exact Or.inr h
  | cons d cs ih =>
    rw [List.foldl_cons] at h
    obtain mem | kept := ih h
    · exact Or.inl (List.mem_cons_of_mem _ mem)
    · obtain ⟨e, he, rfl | old⟩ := choose_eq_some tolerance best d
      · rw [he] at kept
        cases kept
        exact Or.inl List.mem_cons_self
      · rw [he] at kept
        cases kept
        exact Or.inr old

end Source

theorem key_choose_le {best : Option (Candidate ℚ)} {c d : Candidate ℚ}
    (h : choose 0 best c = some d) : d.key ≤ c.key ∧ ∀ b, best = some b → d.key ≤ b.key := by
  cases best with
  | none =>
    cases h
    exact ⟨le_rfl, fun b hb => by cases hb⟩
  | some b =>
    rw [choose] at h
    split at h
    · next better =>
      cases h
      have less := (beats_zero_iff c b).mp better
      exact ⟨le_rfl, fun b' hb => by cases hb; exact less.le⟩
    · next worse =>
      cases h
      have notLess : ¬c.key < d.key := fun less => worse ((beats_zero_iff c d).mpr less)
      exact ⟨not_lt.mp notLess, fun b' hb => by cases hb; exact le_rfl⟩

theorem foldl_choose_ne_none (tolerance : ℚ) (cs : List (Candidate ℚ)) {best : Option (Candidate ℚ)}
    (some : best ≠ none) : cs.foldl (choose tolerance) best ≠ none := by
  induction cs generalizing best with
  | nil => exact some
  | cons d cs ih =>
    obtain ⟨e, he, -⟩ := choose_eq_some tolerance best d
    rw [List.foldl_cons, he]
    exact ih (Option.some_ne_none e)

/-- Without a tolerance the fold ends at the candidate that comes first. -/
theorem key_foldl_choose_le {cs : List (Candidate ℚ)} {best : Option (Candidate ℚ)}
    {c : Candidate ℚ} (h : cs.foldl (choose 0) best = some c) :
    (∀ d ∈ cs, c.key ≤ d.key) ∧ ∀ b, best = some b → c.key ≤ b.key := by
  induction cs generalizing best with
  | nil =>
    refine ⟨fun d hd => (List.not_mem_nil hd).elim, fun b hb => ?_⟩
    rw [List.foldl_nil, hb] at h
    cases h
    exact le_rfl
  | cons d cs ih =>
    rw [List.foldl_cons] at h
    obtain ⟨e, he, -⟩ := choose_eq_some 0 best d
    obtain ⟨rest, now⟩ := ih h
    obtain ⟨le_new, le_old⟩ := key_choose_le he
    have least := now e he
    refine ⟨List.forall_mem_cons.mpr ⟨least.trans le_new, rest⟩, fun b hb => ?_⟩
    exact least.trans (le_old b hb)

end Candidate

namespace Tableau

section Indices

variable {α : Type} [Scalar α] {t : Tableau α} {tolerance : α} {columns column row : ℕ}
  {cautious : Bool}

/-- The entering column is one of those asked for. -/
theorem entering?_lt (h : t.entering? tolerance columns cautious = some column) :
    column < columns ∧ column < t.goal.entries.length := by
  have inside : column < (t.goal.entries.take columns).length := by
    cases cautious with
    | true => exact first?_lt h
    | false => exact steepest?_lt h
  rwa [List.length_take, lt_min_iff] at inside

/-- How far a row lets a column grow. -/
def ratio (column : ℕ) (r : Row α) : α := positivePart r.rhs / r.entry column

/-- The candidate that a row is, where it limits the column. -/
def candidate (column i : ℕ) (r : Row α) : Candidate α :=
  { ratio := ratio column r, row := i, basic := r.basic }

theorem mem_candidates {c : Candidate α} : c ∈ t.candidates tolerance column ↔
    ∃ i r, t.rows[i]? = some r ∧ ¬r.entry column ≤ tolerance ∧ c = candidate column i r := by
  simp only [candidates, List.mem_filterMap, Prod.exists, List.mem_zipIdx_iff_getElem?]
  constructor
  · rintro ⟨r, i, hr, h⟩
    split at h
    · cases h
    · next above => exact ⟨i, r, hr, above, (Option.some.inj h).symm⟩
  · rintro ⟨i, r, hr, above, rfl⟩
    exact ⟨r, i, hr, if_neg above⟩

/-- The leaving row is a candidate. -/
theorem leaving?_candidate (h : t.leaving? tolerance column = some row) :
    ∃ r, t.rows[row]? = some r ∧ ¬r.entry column ≤ tolerance := by
  obtain ⟨c, hc, rfl⟩ := Option.map_eq_some_iff.mp h
  obtain mem | start := Candidate.mem_of_foldl_choose hc
  · obtain ⟨i, r, hr, above, rfl⟩ := mem_candidates.mp mem
    exact ⟨r, hr, above⟩
  · cases start

end Indices

variable {t : Tableau ℚ} {tolerance : ℚ} {columns column row : ℕ} {cautious : Bool}

theorem entering?_eq_none (nonneg : 0 ≤ tolerance)
    (h : t.entering? tolerance columns cautious = none) {j : ℕ} (hj : j < columns) :
    t.goal.entry j ≤ tolerance := by
  have all : ∀ gain ∈ t.goal.entries.take columns, gain ≤ tolerance := by
    cases cautious with
    | true => exact first?_eq_none h
    | false => exact steepest?_eq_none h
  by_cases inside : j < t.goal.entries.length
  · have entry : t.goal.entry j = t.goal.entries[j] := by simp [Line.entry, inside]
    rw [entry]
    refine all _ (List.mem_of_getElem? (i := j) ?_)
    rw [List.getElem?_take_of_lt hj, List.getElem?_eq_getElem inside]
  · rw [Line.entry_of_width_le (not_lt.mp inside)]
    exact nonneg

theorem entry_of_getElem?_take {l : Line ℚ} {gain : ℚ} {j : ℕ}
    (h : (l.entries.take columns)[j]? = some gain) :
    j < columns ∧ j < l.entries.length ∧ l.entry j = gain := by
  obtain ⟨inside, rfl⟩ := List.getElem?_eq_some_iff.mp h
  rw [List.length_take, lt_min_iff] at inside
  refine ⟨inside.1, inside.2, ?_⟩
  simp [Line.entry, inside.2]

theorem entering?_eq_some (h : t.entering? tolerance columns cautious = some column) :
    column < columns ∧ column < t.goal.entries.length ∧ tolerance < t.goal.entry column := by
  have found : ∃ gain, (t.goal.entries.take columns)[column]? = some gain ∧ tolerance < gain := by
    cases cautious with
    | true => exact (first?_eq_some h).1
    | false => exact steepest?_eq_some h
  obtain ⟨gain, hgain, more⟩ := found
  obtain ⟨inside, width, entry⟩ := entry_of_getElem?_take hgain
  exact ⟨inside, width, entry ▸ more⟩

/-- The cautious rule passes over no column that gains. -/
theorem entering?_cautious (h : t.entering? tolerance columns true = some column) {j : ℕ}
    (hj : j < column) : t.goal.entry j ≤ tolerance := by
  obtain ⟨inside, width, -⟩ := entering?_eq_some h
  refine (first?_eq_some h).2 j hj _ ?_
  rw [List.getElem?_take_of_lt (hj.trans inside), List.getElem?_eq_getElem (hj.trans width)]
  simp [Line.entry, hj.trans width]

theorem leaving?_eq_none (h : t.leaving? tolerance column = none) {r : Row ℚ} (hr : r ∈ t.rows) :
    r.entry column ≤ tolerance := by
  by_contra above
  obtain ⟨i, hi⟩ := List.getElem?_of_mem hr
  have mem := mem_candidates.mpr ⟨i, r, hi, above, rfl⟩
  rw [leaving?, Option.map_eq_none_iff] at h
  cases hc : t.candidates tolerance column with
  | nil => rw [hc] at mem; cases mem
  | cons c cs =>
    rw [hc, List.foldl_cons] at h
    exact Candidate.foldl_choose_ne_none tolerance cs (Option.some_ne_none c) h

theorem leaving?_eq_some (h : t.leaving? tolerance column = some row) :
    ∃ r, t.rows[row]? = some r ∧ tolerance < r.entry column := by
  obtain ⟨r, hr, above⟩ := leaving?_candidate h
  exact ⟨r, hr, not_le.mp above⟩

/-- **The leaving row comes first by ratio and then by basic column.** -/
theorem leaving?_least {r o : Row ℚ} (h : t.leaving? 0 column = some row)
    (hr : t.rows[row]? = some r) (ho : o ∈ t.rows) (limits : 0 < o.entry column) :
    ratio column r < ratio column o ∨ ratio column r = ratio column o ∧ r.basic ≤ o.basic := by
  obtain ⟨c, hc, rfl⟩ := Option.map_eq_some_iff.mp h
  obtain ⟨k, hk⟩ := List.getElem?_of_mem ho
  obtain mem | start := Candidate.mem_of_foldl_choose hc
  · obtain ⟨i, q, hq, -, rfl⟩ := mem_candidates.mp mem
    have same : q = r := Option.some.inj (hq.symm.trans hr)
    have first := (Candidate.key_foldl_choose_le hc).1 _ (mem_candidates.mpr ⟨k, o, hk, not_le.mpr limits, rfl⟩)
    rw [same] at first
    exact Prod.Lex.toLex_le_toLex.mp first
  · cases start

/-! ## What is due -/

section Step

variable {α : Type} [Scalar α] {t : Tableau α} {tolerance : α}

theorem step_eq_pivot (h : t.step tolerance columns cautious = .pivot row column) :
    t.entering? tolerance columns cautious = some column ∧ t.leaving? tolerance column = some row := by
  unfold step at h
  split at h
  · cases h
  · next entering =>
    split at h
    · cases h
    · next leaving =>
      cases h
      exact ⟨entering, leaving⟩

theorem step_eq_unbounded (h : t.step tolerance columns cautious = .unbounded) :
    ∃ column, t.entering? tolerance columns cautious = some column ∧
      t.leaving? tolerance column = none := by
  unfold step at h
  split at h
  · cases h
  · next entering =>
    split at h
    · next leaving => exact ⟨_, entering, leaving⟩
    · cases h

theorem step_eq_optimal (h : t.step tolerance columns cautious = .optimal) :
    t.entering? tolerance columns cautious = none := by
  unfold step at h
  split at h
  · assumption
  · split at h <;> cases h

end Step

end Tableau

end Allotment.Simplex
