import Allotment.Draft

/-!
# A portfolio

How to split a sum, all of it, between equity, bonds and fixed deposits for the greatest
expected return, with at most so much in equity and at least so much in the other two.
-/

namespace Allotment.Ready
set_option autoImplicit false

/-- **The parameters of a portfolio**: annual returns in percent, limits as parts of the sum. -/
structure Portfolio (α : Type) where
  equityReturn : α
  bondReturn : α
  depositReturn : α
  maxEquity : α
  minBonds : α
  minDeposits : α
  deriving DecidableEq, Repr

namespace Portfolio

variable {α : Type} [Scalar α]

/-- The usual returns, with at most six tenths in equity. -/
def default : Portfolio α where
  equityReturn := 12.0
  bondReturn := 7.0
  depositReturn := 5.0
  maxEquity := 0.6
  minBonds := 0.2
  minDeposits := 0.1

/-- The portfolio described by names. -/
def draft (f : Portfolio α) : Draft α :=
  Draft.empty
    |>.withBounded "equity" 0 (some 1)
    |>.withBounded "bonds" 0 (some 1)
    |>.withBounded "fixed_deposits" 0 (some 1)
    |>.withObjective .maximize
        [("equity", f.equityReturn), ("bonds", f.bondReturn),
          ("fixed_deposits", f.depositReturn)]
    |>.withConstraint "Fully Invested" [("equity", 1), ("bonds", 1), ("fixed_deposits", 1)]
        .equal 1
    |>.withConstraint "Max Equity" [("equity", 1)] .atMost f.maxEquity
    |>.withConstraint "Min Bonds" [("bonds", 1)] .atLeast f.minBonds
    |>.withConstraint "Min FD" [("fixed_deposits", 1)] .atLeast f.minDeposits

/-- **The program of the portfolio.** -/
def program (f : Portfolio α) : Except (Flaw α) (Program α) := f.draft.program

end Portfolio

end Allotment.Ready
