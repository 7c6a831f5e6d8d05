import Allotment.Proofs.Simplex.Line
import Allotment.Simplex.StandardForm

/-!
# The columns that rows have to themselves

The slack and surplus columns of the rows, read in order, are an interval, and so are the artificial
ones. Hence no two rows share a column, every column lies where its kind belongs, and the unit
columns form an identity. At a point a row sees of these columns the `part` of its own slot only.
-/

namespace Allotment.Simplex
set_option autoImplicit false

namespace Slot

/-- The slack or surplus column of a slot. -/
def slackColumn? : Slot → Option ℕ
  | slack s => some s
  | surplus s _ => some s
  | artificial _ => none

/-- The artificial column of a slot. -/
def artificialColumn? : Slot → Option ℕ
  | slack _ => none
  | surplus _ a => some a
  | artificial a => some a

/-- The relation of the rows that a slot is for. -/
def relation : Slot → Relation
  | slack _ => .atMost
  | surplus _ _ => .atLeast
  | artificial _ => .equal

/-- What the columns of a slot add to its row at a point. -/
def part (slot : Slot) (z : ℕ → ℚ) : ℚ :=
  match slot with
  | slack s => z s
  | surplus s a => z a - z s
  | artificial a => z a

/-- Where the columns of a slot lie: slacks and surpluses between the first two bounds, artificials
between the last two. -/
def Within (first mid last : ℕ) : Slot → Prop
  | slack s => first ≤ s ∧ s < mid
  | surplus s a => first ≤ s ∧ s < mid ∧ mid ≤ a ∧ a < last
  | artificial a => mid ≤ a ∧ a < last

section Assign

variable (slack artificial : ℕ) (relations : List Relation)

theorem relation_assign : (assign slack artificial relations).map relation = relations := by
  induction relations generalizing slack artificial with
  | nil => rfl
  | cons r rest ih => cases r <;> simp [assign, relation, ih]

theorem length_assign : (assign slack artificial relations).length = relations.length := by
  have same := congrArg List.length (relation_assign slack artificial relations)
  simpa using same

/-- **Slack and surplus columns are handed out in order.** -/
theorem slackColumns_assign : (assign slack artificial relations).filterMap slackColumn? =
    List.range' slack (relations.countP (· != .equal)) := by
  induction relations generalizing slack artificial with
  | nil => rfl
  | cons r rest ih => cases r <;> simp [assign, slackColumn?, List.filterMap_cons, ih, List.range'_succ]

/-- **Artificial columns are handed out in order.** -/
theorem artificialColumns_assign : (assign slack artificial relations).filterMap artificialColumn? =
    List.range' artificial (relations.countP (· != .atMost)) := by
  induction relations generalizing slack artificial with
  | nil => rfl
  | cons r rest ih =>
    cases r <;> simp [assign, artificialColumn?, List.filterMap_cons, ih, List.range'_succ]

end Assign

/-- A column that is handed out once belongs to one place of the list. -/
theorem index_eq_of_nodup {column? : Slot → Option ℕ} {slots : List Slot}
    (nodup : (slots.filterMap column?).Nodup) {i k j : ℕ} {a b : Slot} (ha : slots[i]? = some a)
    (hb : slots[k]? = some b) (fa : column? a = some j) (fb : column? b = some j) : i = k := by
  rw [List.Nodup, List.pairwise_filterMap, List.pairwise_iff_getElem] at nodup
  obtain ⟨hi, rfl⟩ := List.getElem?_eq_some_iff.mp ha
  obtain ⟨hk, rfl⟩ := List.getElem?_eq_some_iff.mp hb
  obtain less | same | more := lt_trichotomy i k
  · exact absurd rfl (nodup i k hi hk less j fa j fb)
  · exact same
  · exact absurd rfl (nodup k i hk hi more j fb j fa)

/-! ## A slot at a point -/

theorem sum_indicator {first count c : ℕ} (lo : first ≤ c) (hi : c < first + count) (z : ℕ → ℚ) :
    ∑ j ∈ Finset.range count, (if first + j = c then 1 else 0) * z (first + j) = z c := by
  rw [Finset.sum_eq_single_of_mem (c - first) (Finset.mem_range.mpr (by omega))]
  · rw [show first + (c - first) = c by omega, if_pos rfl, one_mul]
  · intro j _ ne
    rw [if_neg (by omega), zero_mul]

theorem entry_eq {first mid last : ℕ} {slot : Slot} (within : slot.Within first mid last) (c : ℕ) :
    slot.entry c = match slot with
      | slack s => if c = s then (1 : ℚ) else 0
      | surplus s a => (if c = a then 1 else 0) - (if c = s then 1 else 0)
      | artificial a => if c = a then 1 else 0 := by
  cases slot with
  | slack s => rfl
  | surplus s a =>
    obtain ⟨-, below, above, -⟩ := within
    have ne : s ≠ a := by omega
    simp only [entry]
    split
    · next here => rw [if_neg fun e => ne (here.symm.trans e)]; ring
    · ring
  | artificial a => rfl

/-- The columns after the first ones, weighed by the entries of a slot. -/
theorem weigh_entries {first mid last count : ℕ} {slot : Slot} (within : slot.Within first mid last)
    (width : last = first + count) (low : first ≤ mid) (high : mid ≤ last) (z : ℕ → ℚ) :
    weigh ((List.range' first count).map slot.entry) (fun j => z (first + j)) = slot.part z := by
  have entries : weigh ((List.range' first count).map slot.entry) (fun j => z (first + j)) =
      ∑ j ∈ Finset.range count, slot.entry (first + j) * z (first + j) := by
    rw [weigh, List.length_map, List.length_range']
    apply Finset.sum_congr rfl
    intro j hj
    have inside : j < count := Finset.mem_range.mp hj
    simp [inside]
  rw [entries]
  simp only [entry_eq within]
  cases slot with
  | slack s =>
    obtain ⟨above, below⟩ := within
    exact sum_indicator above (by omega) z
  | surplus s a =>
    obtain ⟨above, below, above', below'⟩ := within
    simp only [sub_mul, Finset.sum_sub_distrib]
    rw [sum_indicator (by omega) (by omega), sum_indicator (by omega) (by omega), part]
  | artificial a =>
    obtain ⟨above, below⟩ := within
    exact sum_indicator (by omega) (by omega) z

end Slot

end Allotment.Simplex
