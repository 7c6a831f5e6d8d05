import Allotment.Console.Run
import Allotment.Proofs.Comparison

/-!
# What the exit status tells

A report carries the status of every solve that it is about, and the exit status is to be zero only if
each of these is an optimum. For a solve and for a comparison it is. Of a demonstration with a question
only the plan itself is asked for, so a question that leaves the plan without an optimum is answered
with a zero too: `Command.OverlooksChange` says which questions these are, and they are the only
exception (`exit_truthful_iff`).
-/

namespace Allotment
set_option autoImplicit false

variable {α : Type} [Scalar α]

/-- The statuses of both sides. -/
def ComparisonSummary.statuses (s : ComparisonSummary α) : List Status := [s.baseStatus, s.changedStatus]

theorem Comparison.statuses_summary (s t : Solution α) :
    (ofSolutions s t).summary.statuses = [s.status, t.status] := by
  obtain ⟨base, changed, -⟩ := ofSolutions_eq s t
  rw [ComparisonSummary.statuses, summary, base, changed]

theorem mapError_eq_ok_iff {ε ζ β : Type} {x : Except ε β} {f : ε → ζ} {b : β} :
    x.mapError f = .ok b ↔ x = .ok b := by
  cases x with
  | error e =>
    constructor
    · intro h
      cases h
    · intro h
      cases h
  | ok a =>
    constructor
    · intro h
      cases h
      rfl
    · intro h
      cases h
      rfl

/-- **A question is never refused for the shape**, since changes keep it. -/
theorem whatIf_eq {s : SolverSettings α} {p q : Program α} {changes : List (Change α)}
    (changed : p.changed changes = .ok q) :
    whatIf s p changes = .ok (.ofSolutions (Simplex.solve s p) (Simplex.solve s q)) := by
  have same : p.mismatch? q = none :=
    Program.mismatch?_eq_none_iff.mpr (Program.sameShape_changed changed).1
  rw [whatIf, changed]
  show compare s p q = _
  rw [compare, same]

end Allotment

namespace Allotment.Console
set_option autoImplicit false

/-- **The statuses of all the solves that a report carries.** -/
def Report.statuses : Report → List Status
  | solved s _ => [s.status]
  | compared s _ => s.statuses
  | checked .. => []
  | demonstrated d _ =>
    d.solve.status ::
      match d.whatIf with
      | none => []
      | some s => s.statuses

/-- **The exit status of a command tells the truth** about its solves. -/
structure TellsTruth (files : Files) (c : Configuration) (command : Command) : Prop where
  failed : (respond files c command).exit = 1 ↔ ∃ t, execute files c command = .error t
  settled : (respond files c command).exit = 0 ↔
    ∃ report, execute files c command = .ok report ∧ ∀ status ∈ report.statuses, status = .optimal
  unsettled : (respond files c command).exit = 2 ↔
    ∃ report, execute files c command = .ok report ∧ ∃ status ∈ report.statuses, status ≠ .optimal

/-- **A question about the production plan that takes away its optimum.** -/
def Command.OverlooksChange (c : Configuration) : Command → Prop
  | .demo .production question _ _ => question.isEmpty = false ∧
    ∃ p q, (Ready.Production.default : Ready.Production Float).program = .ok p ∧
      p.changed (question.changes .default) = .ok q ∧
      (Simplex.solve c.solver p).status = .optimal ∧ (Simplex.solve c.solver q).status ≠ .optimal
  | _ => False

/-! ## What is reported -/

section Report

variable {files : Files} {c : Configuration} {report : Report}

theorem settled_compared_iff (s t : Solution Float) (format : PageFormat) :
    (Report.compared (Comparison.ofSolutions s t).summary format).settled = true ↔
      s.status = .optimal ∧ t.status = .optimal := by
  obtain ⟨-, -, outcome⟩ := Comparison.ofSolutions_eq s t
  show ((Comparison.ofSolutions s t).outcome == .compared) = true ↔ _
  rw [outcome, beq_iff_eq, Outcome.ofStatuses_eq_compared_iff]

/-- **What a demonstration of the production plan reports**: the plan solved and, if something is asked,
the comparison with the changed plan. -/
theorem demonstrate_production {question : Ready.WhatIf Float} {wholeUnits : Bool} {d : DemoSummary}
    (ok : demonstrate c question wholeUnits .production = .ok d) :
    ∃ p, (Ready.Production.default : Ready.Production Float).program = .ok p ∧
      d.solve = summarize c p wholeUnits false ∧
      (question.isEmpty = true ∧ d.whatIf = none ∨
        question.isEmpty = false ∧ ∃ q, p.changed (question.changes .default) = .ok q ∧
          d.whatIf = some (Comparison.ofSolutions (Simplex.solve c.solver p)
            (Simplex.solve c.solver q)).summary) := by
  unfold demonstrate at ok
  obtain ⟨p, plan, ok⟩ := exists_of_bind_ok ok
  refine ⟨p, mapError_eq_ok_iff.mp plan, ?_⟩
  cases asked : question.isEmpty with
  | true =>
    rw [if_pos asked] at ok
    cases ok
    exact ⟨rfl, .inl ⟨rfl, rfl⟩⟩
  | false =>
    rw [if_neg (by rw [asked]; exact Bool.false_ne_true)] at ok
    obtain ⟨comparison, answer, ok⟩ := exists_of_bind_ok ok
    obtain ⟨q, changed, -⟩ := exists_of_bind_ok (mapError_eq_ok_iff.mp answer)
    rw [whatIf_eq changed] at answer
    cases answer
    cases ok
    exact ⟨rfl, .inr ⟨rfl, q, changed, rfl⟩⟩

/-- **A report is settled just where all its solves are optima**, unless a change is overlooked. -/
theorem settled_iff_of_execute {command : Command} (ok : execute files c command = .ok report) :
    (report.settled = true ↔ ∀ status ∈ report.statuses, status = .optimal) ↔
      ¬command.OverlooksChange c := by
  cases command with
  | solve file wholeUnits finiteDifference format =>
    obtain ⟨p, -, ok⟩ := exists_of_bind_ok ok
    cases ok
    simp [Report.settled, Report.statuses, Command.OverlooksChange]
  | compare base other format =>
    obtain ⟨p, -, ok⟩ := exists_of_bind_ok ok
    obtain ⟨q, -, ok⟩ := exists_of_bind_ok ok
    obtain ⟨comparison, compared, ok⟩ := exists_of_bind_ok ok
    cases ok
    rw [compare_eq_ok (mapError_eq_ok_iff.mp compared), settled_compared_iff, Report.statuses,
      Comparison.statuses_summary]
    simp [Command.OverlooksChange]
  | check file =>
    obtain ⟨p, -, ok⟩ := exists_of_bind_ok ok
    cases ok
    simp [Report.settled, Report.statuses, Command.OverlooksChange]
  | demo scenario question wholeUnits format =>
    obtain ⟨d, demonstrated, ok⟩ := exists_of_bind_ok ok
    cases ok
    cases scenario with
    | portfolio =>
      obtain ⟨p, -, ok⟩ := exists_of_bind_ok demonstrated
      cases ok
      simp [Report.settled, Report.statuses, Command.OverlooksChange]
    | production =>
      obtain ⟨p, plan, solve, ⟨asked, whatIf⟩ | ⟨asked, q, changed, whatIf⟩⟩ :=
        demonstrate_production demonstrated
      · simp [Report.settled, Report.statuses, Command.OverlooksChange, asked, whatIf]
      · -- the report has the plan, the plan again as the base of the question, and the changed plan
        have overlooked : Command.OverlooksChange c (.demo .production question wholeUnits format) ↔
            (Simplex.solve c.solver p).status = .optimal ∧
              (Simplex.solve c.solver q).status ≠ .optimal := by
          constructor
          · rintro ⟨-, p', q', plan', changed', statuses⟩
            cases plan.symm.trans plan'
            cases changed.symm.trans changed'
            exact statuses
          · exact fun statuses => ⟨asked, p, q, plan, changed, statuses⟩
        have planStatus : d.solve.status = (Simplex.solve c.solver p).status := by
          rw [solve]
          rfl
        rw [overlooked]
        simp only [Report.settled, Report.statuses, whatIf, Comparison.statuses_summary, planStatus,
          beq_iff_eq, List.forall_mem_cons]
        simp

end Report

/-! ## What the exit status tells -/

section Respond

variable {files : Files} {c : Configuration} {command : Command}

theorem respond_of_ok {report : Report} (ok : execute files c command = .ok report) :
    (respond files c command).exit = if report.settled then 0 else 2 := by
  rw [respond, ok]
  rfl

/-- A command other than a check that cannot be carried out exits with one. -/
theorem respond_of_error (notCheck : ∀ file, command ≠ .check file) {t : Trouble}
    (error : execute files c command = .error t) : (respond files c command).exit = 1 := by
  rw [respond, error]
  cases command with
  | check file => exact absurd rfl (notCheck file)
  | _ => rfl

/-- The exit status is one for an error only. -/
theorem exit_eq_one_iff (notCheck : ∀ file, command ≠ .check file) :
    (respond files c command).exit = 1 ↔ ∃ t, execute files c command = .error t := by
  constructor
  · intro one
    cases ran : execute files c command with
    | error t => exact ⟨t, rfl⟩
    | ok report =>
      rw [respond_of_ok ran] at one
      split at one <;> cases one
  · rintro ⟨t, error⟩
    exact respond_of_error notCheck error

/-- The exit status is zero for a settled report only. -/
theorem exit_eq_zero_iff (notCheck : ∀ file, command ≠ .check file) :
    (respond files c command).exit = 0 ↔
      ∃ report, execute files c command = .ok report ∧ report.settled = true := by
  cases ran : execute files c command with
  | error t =>
    rw [respond_of_error notCheck ran]
    simp
  | ok report =>
    rw [respond_of_ok ran]
    cases settled : report.settled <;> simp [settled]

/-- The exit status is two for an unsettled report only. -/
theorem exit_eq_two_iff (notCheck : ∀ file, command ≠ .check file) :
    (respond files c command).exit = 2 ↔
      ∃ report, execute files c command = .ok report ∧ ¬report.settled = true := by
  cases ran : execute files c command with
  | error t =>
    rw [respond_of_error notCheck ran]
    simp
  | ok report =>
    rw [respond_of_ok ran]
    cases settled : report.settled <;> simp [settled]

/-- **A command that overlooks a change exits with zero**, although not all its solves are optima. -/
theorem exit_of_overlooksChange (files : Files) (overlooks : command.OverlooksChange c) :
    (respond files c command).exit = 0 ∧ ∃ report, execute files c command = .ok report ∧
      ∃ status ∈ report.statuses, status ≠ .optimal := by
  cases command with
  | solve => exact overlooks.elim
  | compare => exact overlooks.elim
  | check => exact overlooks.elim
  | demo scenario question wholeUnits format =>
    cases scenario with
    | portfolio => exact overlooks.elim
    | production =>
      obtain ⟨asked, p, q, plan, changed, before, after⟩ := overlooks
      have demonstrated : demonstrate c question wholeUnits .production = .ok
          ⟨summarize c p wholeUnits false, some (Comparison.ofSolutions (Simplex.solve c.solver p)
            (Simplex.solve c.solver q)).summary⟩ := by
        simp only [demonstrate]
        rw [mapError_eq_ok_iff.mpr plan]
        show (if question.isEmpty = true then _ else _) = _
        rw [asked, whatIf_eq changed]
        rfl
      have ran : execute files c (.demo .production question wholeUnits format) = .ok (.demonstrated
          ⟨summarize c p wholeUnits false, some (Comparison.ofSolutions (Simplex.solve c.solver p)
            (Simplex.solve c.solver q)).summary⟩ format) := by
        rw [execute, demonstrated]
        rfl
      have settled : (summarize c p wholeUnits false).status = .optimal := before
      refine ⟨?_, _, ran, (Simplex.solve c.solver q).status, ?_, after⟩
      · rw [respond_of_ok ran, Report.settled, settled]
        rfl
      · simp only [Report.statuses, Comparison.statuses_summary]
        simp

/-- Without such a change the exit status tells the truth. -/
theorem tellsTruth_of_not_overlooksChange (notCheck : ∀ file, command ≠ .check file)
    (sees : ¬command.OverlooksChange c) : TellsTruth files c command where
  failed := exit_eq_one_iff notCheck
  settled := by
    rw [exit_eq_zero_iff notCheck]
    exact exists_congr fun report => and_congr_right fun ran => (settled_iff_of_execute ran).mpr sees
  unsettled := by
    rw [exit_eq_two_iff notCheck]
    refine exists_congr fun report => and_congr_right fun ran => ?_
    rw [(settled_iff_of_execute ran).mpr sees]
    simp

end Respond

/-- **The exit status tells the truth**, for every command but a check, all files and every
configuration: it is one just where the command cannot be carried out, and zero just where it can and
every solve reached an optimum, unless a question about the production plan takes its optimum away.
That is overlooked: the exit status is zero. -/
theorem exit_truthful_iff (files : Files) (c : Configuration) (command : Command)
    (notCheck : ∀ file, command ≠ .check file) :
    ((respond files c command).exit = 1 ↔ ∃ t, execute files c command = .error t) ∧
      (TellsTruth files c command ↔ ¬command.OverlooksChange c) ∧
      (command.OverlooksChange c → (respond files c command).exit = 0) := by
  refine ⟨exit_eq_one_iff notCheck, ⟨fun truth overlooks => ?_, tellsTruth_of_not_overlooksChange notCheck⟩,
    fun overlooks => (exit_of_overlooksChange files overlooks).1⟩
  -- the exit status says that all solves are optima, and one of them is not
  obtain ⟨zero, report, ran, status, mem, missed⟩ := exit_of_overlooksChange files overlooks
  obtain ⟨report', ran', all⟩ := truth.settled.mp zero
  cases ran.symm.trans ran'
  exact missed (all status mem)

/-- One worker leaves the production plan. -/
theorem exit_truthful_iff_production :
    (∀ file, (Command.demo .production ⟨0, -1, 0, 0⟩ false .text) ≠ .check file) ∧
      ((respond (fun _ => none) .default (.demo .production ⟨0, -1, 0, 0⟩ false .text)).exit = 1 ↔
        ∃ t, execute (fun _ => none) .default (.demo .production ⟨0, -1, 0, 0⟩ false .text) = .error t) ∧
      (TellsTruth (fun _ => none) .default (.demo .production ⟨0, -1, 0, 0⟩ false .text) ↔
        ¬Command.OverlooksChange .default (.demo .production ⟨0, -1, 0, 0⟩ false .text)) ∧
      (Command.OverlooksChange .default (.demo .production ⟨0, -1, 0, 0⟩ false .text) →
        (respond (fun _ => none) .default (.demo .production ⟨0, -1, 0, 0⟩ false .text)).exit = 0) := by
  have notCheck : ∀ file, (Command.demo .production ⟨0, -1, 0, 0⟩ false .text) ≠ .check file := nofun
  exact ⟨notCheck, exit_truthful_iff _ _ _ notCheck⟩

/-- **The exit status can hide a change that takes the optimum away**: forty-one of forty workers leave
the production plan, which makes it infeasible, and the exit status is zero. -/
theorem exit_hides_change :
    ¬TellsTruth (fun _ => none) .default (.demo .production ⟨0, -41, 0, 0⟩ false .text) := by
  intro truth
  have zero : (respond (fun _ => none) .default (.demo .production ⟨0, -41, 0, 0⟩ false .text)).exit = 0 := by
    decide +kernel
  have statuses : (execute (fun _ => none) .default
      (.demo .production ⟨0, -41, 0, 0⟩ false .text)).toOption.map Report.statuses =
        some [.optimal, .optimal, .infeasible] := by
    decide +kernel
  obtain ⟨report, ran, all⟩ := truth.settled.mp zero
  rw [ran] at statuses
  have last := all .infeasible (by rw [Option.some.inj statuses]; simp)
  cases last

end Allotment.Console
