import Allotment.Proofs.Simplex.Choice

/-!
# How far the ratio test drifts

The scan for the leaving row keeps one best row and compares each later row with that row alone. Within
the tolerance a row of a greater ratio may take its place for having a lower basic column, and ratios
that are within the tolerance of a common third need not be so of each other. So the best ratio may
rise again and again, also after the row of least ratio was met. It rises by no more than the tolerance
at each row (`choose_drift`), hence by no more than that for every row but one over the whole scan
(`leaving?_nearLeast`). Without a tolerance it does not rise at all.
-/

namespace Allotment.Simplex
set_option autoImplicit false

namespace Candidate

variable {tolerance : ℚ} (nonneg : 0 ≤ tolerance)
include nonneg

/-- **One comparison** leaves a ratio that is at most a tolerance above either of the two. -/
theorem choose_drift {b c d : Candidate ℚ} (h : choose tolerance (some b) c = some d) :
    d.ratio ≤ b.ratio + tolerance ∧ d.ratio ≤ c.ratio + tolerance := by
  simp only [choose, beats, Scalar.abs_rat, Bool.or_eq_true, Bool.and_eq_true, decide_eq_true_eq] at h
  split at h
  · next better =>
    cases h
    refine ⟨?_, le_add_of_nonneg_right nonneg⟩
    obtain less | ⟨near, -⟩ := better
    · linarith
    · linarith [le_of_abs_le near]
  · next worse =>
    cases h
    refine ⟨le_add_of_nonneg_right nonneg, ?_⟩
    have notLess := not_lt.mp fun less => worse (Or.inl less)
    linarith

/-- **A scan** drifts by at most a tolerance per row, counted from the best row before it or from any
row that it meets. -/
theorem foldl_choose_drift {cs : List (Candidate ℚ)} {b c : Candidate ℚ}
    (h : cs.foldl (choose tolerance) (some b) = some c) :
    c.ratio ≤ b.ratio + cs.length * tolerance ∧
      ∀ d ∈ cs, c.ratio ≤ d.ratio + cs.length * tolerance := by
  induction cs generalizing b with
  | nil =>
    cases h
    simp
  | cons d cs ih =>
    obtain ⟨e, he, -⟩ := choose_eq_some tolerance (some b) d
    rw [List.foldl_cons, he] at h
    obtain ⟨fromBest, fromRest⟩ := ih h
    obtain ⟨overBest, overNew⟩ := choose_drift nonneg he
    rw [List.length_cons, Nat.cast_add_one, add_mul, one_mul]
    refine ⟨by linarith, List.forall_mem_cons.mpr ⟨by linarith, fun o ho => ?_⟩⟩
    linarith [fromRest o ho]

end Candidate

namespace Tableau

/-- How many rows limit a column. -/
def limiting (t : Tableau ℚ) (tolerance : ℚ) (column : ℕ) : ℕ :=
  t.rows.countP fun r => decide (tolerance < r.entry column)

/-- **A row whose ratio is nearly the least** among the rows that limit a column: it exceeds none of
their ratios by more than a tolerance for each of them but one. Without a tolerance it comes first by
ratio and then by basic column. -/
structure NearLeast (t : Tableau ℚ) (tolerance : ℚ) (column row : ℕ) (r : Row ℚ) : Prop where
  row_eq : t.rows[row]? = some r
  limits : tolerance < r.entry column
  drift : ∀ o ∈ t.rows, tolerance < o.entry column →
    ratio column r ≤ ratio column o + ((t.limiting tolerance column : ℚ) - 1) * tolerance
  first : tolerance = 0 → ∀ (k : ℕ) (o : Row ℚ), t.rows[k]? = some o → 0 < o.entry column → k ≠ row →
    ratio column r < ratio column o ∨ ratio column r = ratio column o ∧ r.basic < o.basic

variable {t : Tableau ℚ} {tolerance : ℚ} {column row : ℕ} {r : Row ℚ}

theorem length_candidates : (t.candidates tolerance column).length = t.limiting tolerance column := by
  have rows : t.rows = t.rows.zipIdx.map Prod.fst := (List.zipIdx_map_fst 0 t.rows).symm
  rw [limiting, rows, List.countP_map, candidates, List.length_filterMap_eq_countP]
  refine List.countP_congr ?_
  rintro ⟨r, i⟩ -
  by_cases above : tolerance < r.entry column
  · simp [above, above.not_ge]
  · simp [above, not_lt.mp above]

/-- No row leaves just when none limits the column. -/
theorem leaving?_eq_none_iff :
    t.leaving? tolerance column = none ↔ ∀ r ∈ t.rows, r.entry column ≤ tolerance := by
  refine ⟨fun none r hr => leaving?_eq_none none hr, fun unlimited => ?_⟩
  cases leaving : t.leaving? tolerance column with
  | none => rfl
  | some row =>
    obtain ⟨r, hr, above⟩ := leaving?_eq_some leaving
    exact absurd (unlimited r (List.mem_of_getElem? hr)) above.not_ge

/-- **The leaving row drifts** from the least ratio by at most a tolerance for each row but one. -/
theorem leaving?_drift (nonneg : 0 ≤ tolerance) (h : t.leaving? tolerance column = some row)
    (hr : t.rows[row]? = some r) {o : Row ℚ} (ho : o ∈ t.rows) (limits : tolerance < o.entry column) :
    ratio column r ≤ ratio column o + ((t.limiting tolerance column : ℚ) - 1) * tolerance := by
  obtain ⟨c, scanned, rfl⟩ := Option.map_eq_some_iff.mp h
  obtain ⟨k, hk⟩ := List.getElem?_of_mem ho
  have mem : candidate column k o ∈ t.candidates tolerance column :=
    mem_candidates.mpr ⟨k, o, hk, limits.not_ge, rfl⟩
  -- the row that was found is its own candidate
  have found : c.ratio = ratio column r := by
    obtain source | start := Candidate.mem_of_foldl_choose scanned
    · obtain ⟨i, q, hq, -, rfl⟩ := mem_candidates.mp source
      rw [Option.some.inj (hr.symm.trans hq)]
      rfl
    · cases start
  rw [← length_candidates, ← found]
  cases candidates : t.candidates tolerance column with
  | nil =>
    rw [candidates] at mem
    cases mem
  | cons b cs =>
    rw [candidates] at mem scanned
    rw [List.foldl_cons, Candidate.choose] at scanned
    obtain ⟨fromFirst, fromRest⟩ := Candidate.foldl_choose_drift nonneg scanned
    rw [List.length_cons, Nat.cast_add_one, add_sub_cancel_right]
    obtain rfl | later := List.mem_cons.mp mem
    · exact fromFirst
    · exact fromRest _ later

/-- **Without a tolerance the leaving row comes first**, where no two rows share a basic column. -/
theorem leaving?_first (distinct : (t.rows.map (·.basic)).Nodup) (h : t.leaving? 0 column = some row)
    (hr : t.rows[row]? = some r) {k : ℕ} {o : Row ℚ} (ho : t.rows[k]? = some o)
    (limits : 0 < o.entry column) (other : k ≠ row) :
    ratio column r < ratio column o ∨ ratio column r = ratio column o ∧ r.basic < o.basic := by
  obtain less | ⟨tie, le⟩ := leaving?_least h hr (List.mem_of_getElem? ho) limits
  · exact Or.inl less
  · have apart : r.basic ≠ o.basic := by
      intro same
      have here : (t.rows.map (·.basic))[row]? = some r.basic := by rw [List.getElem?_map, hr]; rfl
      have there : (t.rows.map (·.basic))[k]? = some r.basic := by
        rw [List.getElem?_map, ho, same]
        rfl
      obtain ⟨inside, -⟩ := List.getElem?_eq_some_iff.mp there
      exact other ((List.getElem?_inj inside distinct).mp (there.trans here.symm))
    exact Or.inr ⟨tie, lt_of_le_of_ne le apart⟩

/-- **The ratio test**, on any tableau whose rows have a basic column each to itself, for every column and
every tolerance that is not negative: it finds no row just when none has an entry above the tolerance, and
otherwise one whose ratio is nearly the least. -/
theorem leaving?_nearLeast (t : Tableau ℚ) (distinct : (t.rows.map (·.basic)).Nodup) (column : ℕ)
    (tolerance : ℚ) (nonneg : 0 ≤ tolerance) :
    (t.leaving? tolerance column = none ↔ ∀ r ∈ t.rows, r.entry column ≤ tolerance) ∧
      ∀ row, t.leaving? tolerance column = some row → ∃ r, t.NearLeast tolerance column row r := by
  refine ⟨leaving?_eq_none_iff, fun row leaving => ?_⟩
  obtain ⟨r, hr, limits⟩ := leaving?_eq_some leaving
  refine ⟨r, hr, limits, fun o ho => leaving?_drift nonneg leaving hr ho, fun sharp k o ho above other => ?_⟩
  subst sharp
  exact leaving?_first distinct leaving hr ho above other

/-- Three rows whose ratios go up in steps of one while their basic columns go down. -/
def stairs : Tableau ℚ where
  rows := [⟨⟨[0, 0, 1, 2], 0⟩, 2⟩, ⟨⟨[0, 1, 0, 2], 2⟩, 1⟩, ⟨⟨[1, 0, 0, 2], 4⟩, 0⟩]
  goal := ⟨[0, 0, 0, 1], 0⟩

/-- With a tolerance of one the scan climbs the stairs, as far from the least ratio as it can get. -/
theorem leaving?_nearLeast_stairs : ((stairs.rows.map (·.basic)).Nodup ∧ (0 : ℚ) ≤ 1) ∧
    stairs.leaving? 1 3 = some 2 ∧ (∃ r, stairs.NearLeast 1 3 2 r) ∧
    stairs.rows.map (ratio 3) = [0, 0 + 1, 0 + (stairs.limiting 1 3 - 1) * 1] := by
  have distinct : (stairs.rows.map (·.basic)).Nodup := by decide
  have leaving : stairs.leaving? 1 3 = some 2 := by decide +kernel
  refine ⟨⟨distinct, zero_le_one⟩, leaving, ?_, by decide +kernel⟩
  exact (leaving?_nearLeast stairs distinct 3 1 zero_le_one).2 2 leaving

end Tableau

end Allotment.Simplex
