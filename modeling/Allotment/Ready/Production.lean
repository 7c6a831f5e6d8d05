import Allotment.Change
import Allotment.Draft

/-!
# A production plan

How many phones and tablets to make in a day under limits on labor, material and storage. The
parameters of the plan are the record `Production`; `WhatIf` says how some of them move, either
as changes of the finished program or by moving the parameters and stating the program anew.
-/

namespace Allotment.Ready
set_option autoImplicit false

/-- **The parameters of a production plan.** Money is in rupees, space in square feet. -/
structure Production (α : Type) where
  workers : α
  hoursPerWorker : α
  phoneHours : α
  tabletHours : α
  phoneMaterial : α
  tabletMaterial : α
  materialBudget : α
  storageSpace : α
  phoneSpace : α
  tabletSpace : α
  phoneProfit : α
  tabletProfit : α
  deriving DecidableEq, Repr

/-- **A question about a production plan**: how many workers join (or leave), and by what
percentages the material costs and the profits change. -/
structure WhatIf (α : Type) where
  materialCostChange : α
  workerChange : α
  phoneProfitChange : α
  tabletProfitChange : α
  deriving DecidableEq, Repr

namespace Production

/-- The label of the labor constraint. -/
def laborHoursLabel : String := "Labor Hours"

/-- The label of the material constraint. -/
def materialBudgetLabel : String := "Material Budget"

/-- The label of the storage constraint. -/
def storageSpaceLabel : String := "Storage Space"

/-- The variable that counts phones. -/
def phones : String := "phones"

/-- The variable that counts tablets. -/
def tablets : String := "tablets"

variable {α : Type} [Scalar α]

/-- Forty workers of eight hours, and a budget of fifty lakh. -/
def default : Production α where
  workers := 40.0
  hoursPerWorker := 8.0
  phoneHours := 1.0
  tabletHours := 2.0
  phoneMaterial := 3000.0
  tabletMaterial := 6000.0
  materialBudget := 5000000.0
  storageSpace := 1000.0
  phoneSpace := 2.0
  tabletSpace := 4.0
  phoneProfit := 8000.0
  tabletProfit := 12000.0

/-- The hours of all workers together. -/
def laborHours (m : Production α) : α := m.workers * m.hoursPerWorker

/-- The plan described by names. -/
def draft (m : Production α) : Draft α :=
  Draft.empty
    |>.withVariable phones
    |>.withVariable tablets
    |>.withObjective .maximize [(phones, m.phoneProfit), (tablets, m.tabletProfit)]
    |>.withConstraint laborHoursLabel [(phones, m.phoneHours), (tablets, m.tabletHours)]
        .atMost m.laborHours
    |>.withConstraint materialBudgetLabel
        [(phones, m.phoneMaterial), (tablets, m.tabletMaterial)] .atMost m.materialBudget
    |>.withConstraint storageSpaceLabel [(phones, m.phoneSpace), (tablets, m.tabletSpace)]
        .atMost m.storageSpace

/-- **The program of the plan.** -/
def program (m : Production α) : Except (Flaw α) (Program α) := m.draft.program

end Production

namespace WhatIf

variable {α : Type} [Scalar α]

/-- Nothing changes. -/
def unchanged : WhatIf α where
  materialCostChange := 0
  workerChange := 0
  phoneProfitChange := 0
  tabletProfitChange := 0

/-- Whether nothing changes. -/
def isEmpty (w : WhatIf α) : Bool :=
  w.materialCostChange == 0 && w.workerChange == 0 && w.phoneProfitChange == 0 &&
    w.tabletProfitChange == 0

/-- The factor that a change in percent stands for. -/
def factor (percent : α) : α := 1 + percent / 100.0

/-- A change that is made only if its amount is not zero. -/
def unlessZero (amount : α) (change : Change α) : List (Change α) :=
  if amount == 0 then [] else [change]

/-- **The changes of the finished program** that the question comes to. -/
def changes (w : WhatIf α) (base : Production α) : List (Change α) :=
  unlessZero w.materialCostChange
      (.scaleConstraint Production.materialBudgetLabel (factor w.materialCostChange)) ++
    unlessZero w.workerChange
      (.limit Production.laborHoursLabel
        ((base.workers + w.workerChange) * base.hoursPerWorker)) ++
    unlessZero w.phoneProfitChange
      (.scaleObjectiveCoefficient Production.phones (factor w.phoneProfitChange)) ++
    unlessZero w.tabletProfitChange
      (.scaleObjectiveCoefficient Production.tablets (factor w.tabletProfitChange))

/-- **The parameters that the question comes to**, for a plan to be stated anew. -/
def moved (w : WhatIf α) (base : Production α) : Production α :=
  { base with
    workers := base.workers + w.workerChange
    phoneMaterial := base.phoneMaterial * factor w.materialCostChange
    tabletMaterial := base.tabletMaterial * factor w.materialCostChange
    phoneProfit := base.phoneProfit * factor w.phoneProfitChange
    tabletProfit := base.tabletProfit * factor w.tabletProfitChange }

end WhatIf

end Allotment.Ready
