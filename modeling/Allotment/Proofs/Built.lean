import Allotment.Proofs.Binary64
import Allotment.Proofs.Change
import Allotment.Proofs.Simplex.InRange
import Allotment.Proofs.WellFormed
import Allotment.Ready.Portfolio
import Allotment.Ready.Production

/-!
# Every program that can be built is safe to solve

Programs come from a check of their parts, from a description by names, from one of the ready plans,
from a change of a program, and from relaxing a limit. Only the last is not checked: it can move a
limit past the finite numbers. `Program.Built` is what these operations build in any order, with the
labels of the limits that were moved since the last check; `Program.Safe` is what holds of all of it.
A safe program has one coefficient per variable everywhere, so solving it never reads past the end of
a list (`built_safe`).
-/

namespace Allotment
set_option autoImplicit false

namespace Program

variable {α : Type} [Scalar α]

/-- **The programs that can be built**, with the labels of the limits that were relaxed since the
program was last checked. -/
inductive Built : List String → Program α → Prop
  | checked {p q : Program α} (ok : p.checked = .ok q) : Built [] q
  | drafted {d : Draft α} {p : Program α} (ok : d.program = .ok p) : Built [] p
  | production {m : Ready.Production α} {p : Program α} (ok : m.program = .ok p) : Built [] p
  | portfolio {m : Ready.Portfolio α} {p : Program α} (ok : m.program = .ok p) : Built [] p
  | changed {moved : List String} {p q : Program α} {changes : List (Change α)}
      (built : Built moved p) (ok : p.changed changes = .ok q) : Built [] q
  | relaxed {moved : List String} {p : Program α} {index : ℕ} {c : Constraint α}
      (built : Built moved p) (found : p.constraints[index]? = some c) (delta : α) :
      Built (c.label :: moved) (p.relaxed index delta)

/-- **Programs that are well formed but for the limits that were moved.** -/
structure Safe (moved : List String) (p : Program α) : Prop where
  nonempty : p.vars ≠ []
  names : p.names.Nodup
  lower : ∀ v ∈ p.vars, Scalar.isFinite v.lower = true ∧ 0 ≤ v.lower
  upper : ∀ v ∈ p.vars, ∀ u ∈ v.upper, Scalar.isFinite u = true ∧ v.lower ≤ u
  objective : ProperRow p.vars.length p.objective.coefficients
  labels : p.labels.Nodup
  rows : ∀ c ∈ p.constraints, ProperRow p.vars.length c.coefficients
  limits : ∀ c ∈ p.constraints, c.label ∉ moved → Scalar.isFinite c.limit = true

variable {p q : Program α} {moved : List String}

theorem WellFormed.safe [FiniteOrder α] (h : p.WellFormed) : p.Safe [] where
  nonempty := h.nonempty
  names := h.names
  lower v hv := (Variable.proper_iff.mp (h.bounds v hv)).1
  upper v hv := (Variable.proper_iff.mp (h.bounds v hv)).2
  objective := h.objective
  labels := h.labels
  rows := h.rows
  limits c hc _ := h.limits c hc

theorem wellFormed_of_checked (ok : p.checked = .ok q) : q.WellFormed := by
  obtain ⟨none, rfl⟩ := checked_eq_ok_iff.mp ok
  exact (flaw?_eq_none_iff p).mp none

theorem wellFormed_of_changed {changes : List (Change α)} (ok : p.changed changes = .ok q) :
    q.WellFormed := by
  obtain ⟨r, -, checked⟩ := exists_of_bind_ok ok
  exact wellFormed_of_checked checked

theorem wellFormed_of_draft {d : Draft α} (ok : d.program = .ok p) : p.WellFormed := by
  unfold Draft.program at ok
  split at ok
  · cases ok
  · obtain ⟨coefficients, -, ok⟩ := exists_of_bind_ok ok
    obtain ⟨constraints, -, checked⟩ := exists_of_bind_ok ok
    exact wellFormed_of_checked checked

/-- **Relaxing a limit moves that limit only.** -/
theorem Safe.relaxed (h : p.Safe moved) {index : ℕ} {c : Constraint α}
    (found : p.constraints[index]? = some c) (delta : α) :
    (p.relaxed index delta).Safe (c.label :: moved) := by
  have source : ∀ d ∈ (p.relaxed index delta).constraints, d = c.relaxed delta ∨ d ∈ p.constraints := by
    intro d hd
    obtain ⟨i, hi⟩ := List.getElem?_of_mem hd
    rw [Program.relaxed, List.getElem?_modify] at hi
    by_cases here : index = i
    · subst here
      simp only [if_true, found, Option.map_eq_map, Option.map_some] at hi
      exact Or.inl (Option.some.inj hi).symm
    · simp only [if_neg here, Option.map_eq_map, Option.map_id'] at hi
      exact Or.inr (List.mem_of_getElem? hi)
  exact
    { h with
      labels := (sameShape_modifyConstraint (f := (·.relaxed delta)) index
        fun _ => ⟨rfl, rfl⟩).labels ▸ h.labels
      rows := by
        intro d hd
        obtain rfl | old := source d hd
        · exact h.rows c (List.mem_of_getElem? found)
        · exact h.rows d old
      limits := by
        intro d hd fresh
        obtain rfl | old := source d hd
        · exact absurd List.mem_cons_self fresh
        · exact h.limits d old (fun moved => fresh (List.mem_cons_of_mem _ moved)) }

variable [FiniteOrder α]

/-- **What can be built is well formed but for the limits that were moved.** -/
theorem Built.safe (built : p.Built moved) : p.Safe moved := by
  induction built with
  | checked ok => exact (wellFormed_of_checked ok).safe
  | drafted ok => exact (wellFormed_of_draft ok).safe
  | production ok => exact (wellFormed_of_draft ok).safe
  | portfolio ok => exact (wellFormed_of_draft ok).safe
  | changed _ ok => exact (wellFormed_of_changed ok).safe
  | relaxed _ found delta safe => exact safe.relaxed found delta

omit [FiniteOrder α] in
/-- A safe program is solved without an index out of range. -/
theorem Safe.solveStrictly_eq (h : p.Safe moved) (s : SolverSettings α) :
    Simplex.solveStrictly s p = some (Simplex.solve s p) :=
  Simplex.solveStrictly_eq
    (Simplex.StandardForm.ofProgram_rectangular h.objective.length fun c hc => (h.rows c hc).length) s

/-- **Every program that can be built is safe, and safe to solve**: it is well formed but for the limits
that were relaxed since its last check, and whatever the settings are, solving it with every index
checked comes to what solving it comes to. -/
theorem built_safe (built : p.Built moved) : p.Safe moved ∧
    ∀ s : SolverSettings α, Simplex.solveStrictly s p = some (Simplex.solve s p) :=
  ⟨built.safe, built.safe.solveStrictly_eq⟩

/-- One quantity under a limit so great that it can be relaxed to infinity. -/
def vast : Program Float where
  vars := [{ name := "x", lower := 0, upper := none }]
  objective := { sense := .maximize, coefficients := [1] }
  constraints := [{ label := "cap", coefficients := [1], relation := .atMost, limit := 1e308 }]

theorem built_vast : (vast.relaxed 0 1e308).Built ["cap"] ∧
    Scalar.isFinite (1e308 + 1 * 1e308 : Float) = false ∧
    (vast.relaxed 0 1e308).Safe ["cap"] ∧
    ∀ s, Simplex.solveStrictly s (vast.relaxed 0 1e308) =
      some (Simplex.solve s (vast.relaxed 0 1e308)) := by
  have ok : vast.checked = .ok vast :=
    checked_eq_ok_iff.mpr ⟨Option.isNone_iff_eq_none.mp (by decide +kernel), rfl⟩
  have built : (vast.relaxed 0 1e308).Built ["cap"] :=
    @Built.relaxed _ _ _ _ 0 vast.constraints[0] (.checked ok) rfl 1e308
  exact ⟨built, by decide +kernel, built_safe built⟩

end Program

end Allotment
