import Allotment.Json
import Allotment.Ready.Portfolio
import Allotment.Ready.Production

/-!
# The JSON form of the ready programs

Parameters that are left out have their defaults.
-/

namespace Allotment.Ready
set_option autoImplicit false

variable {α : Type} [Scalar α]

namespace Production

/-- The JSON form. -/
def toJson (m : Production α) : Json α :=
  .obj
    [("workers", .ofReal m.workers), ("hours_per_worker", .ofReal m.hoursPerWorker),
      ("phone_hours", .ofReal m.phoneHours), ("tablet_hours", .ofReal m.tabletHours),
      ("phone_material", .ofReal m.phoneMaterial),
      ("tablet_material", .ofReal m.tabletMaterial),
      ("material_budget", .ofReal m.materialBudget), ("storage_space", .ofReal m.storageSpace),
      ("phone_space", .ofReal m.phoneSpace), ("tablet_space", .ofReal m.tabletSpace),
      ("phone_profit", .ofReal m.phoneProfit), ("tablet_profit", .ofReal m.tabletProfit)]

/-- The fields. -/
def shape : List (List String) :=
  [["workers"], ["hours_per_worker"], ["phone_hours"], ["tablet_hours"], ["phone_material"],
    ["tablet_material"], ["material_budget"], ["storage_space"], ["phone_space"],
    ["tablet_space"], ["phone_profit"], ["tablet_profit"]]

/-- The plan that a JSON value describes. -/
def ofJson? (j : Json α) : Option (Production α) := do
  let base : Production α := .default
  let fields ← j.record? shape
  let workers ← fields.optional? "workers" base.workers Json.real?
  let hoursPerWorker ← fields.optional? "hours_per_worker" base.hoursPerWorker Json.real?
  let phoneHours ← fields.optional? "phone_hours" base.phoneHours Json.real?
  let tabletHours ← fields.optional? "tablet_hours" base.tabletHours Json.real?
  let phoneMaterial ← fields.optional? "phone_material" base.phoneMaterial Json.real?
  let tabletMaterial ← fields.optional? "tablet_material" base.tabletMaterial Json.real?
  let materialBudget ← fields.optional? "material_budget" base.materialBudget Json.real?
  let storageSpace ← fields.optional? "storage_space" base.storageSpace Json.real?
  let phoneSpace ← fields.optional? "phone_space" base.phoneSpace Json.real?
  let tabletSpace ← fields.optional? "tablet_space" base.tabletSpace Json.real?
  let phoneProfit ← fields.optional? "phone_profit" base.phoneProfit Json.real?
  let tabletProfit ← fields.optional? "tablet_profit" base.tabletProfit Json.real?
  return { workers, hoursPerWorker, phoneHours, tabletHours, phoneMaterial, tabletMaterial
           materialBudget, storageSpace, phoneSpace, tabletSpace, phoneProfit, tabletProfit }

end Production

namespace WhatIf

/-- The JSON form. -/
def toJson (w : WhatIf α) : Json α :=
  .obj
    [("material_cost_change", .ofReal w.materialCostChange),
      ("worker_change", .ofReal w.workerChange),
      ("phone_profit_change", .ofReal w.phoneProfitChange),
      ("tablet_profit_change", .ofReal w.tabletProfitChange)]

/-- The fields. -/
def shape : List (List String) :=
  [["material_cost_change"], ["worker_change"], ["phone_profit_change"],
    ["tablet_profit_change"]]

/-- The question that a JSON value asks. -/
def ofJson? (j : Json α) : Option (WhatIf α) := do
  let fields ← j.record? shape
  let materialCostChange ← fields.optional? "material_cost_change" 0 Json.real?
  let workerChange ← fields.optional? "worker_change" 0 Json.real?
  let phoneProfitChange ← fields.optional? "phone_profit_change" 0 Json.real?
  let tabletProfitChange ← fields.optional? "tablet_profit_change" 0 Json.real?
  return { materialCostChange, workerChange, phoneProfitChange, tabletProfitChange }

end WhatIf

namespace Portfolio

/-- The JSON form. -/
def toJson (f : Portfolio α) : Json α :=
  .obj
    [("equity_return", .ofReal f.equityReturn), ("bond_return", .ofReal f.bondReturn),
      ("fd_return", .ofReal f.depositReturn), ("max_equity", .ofReal f.maxEquity),
      ("min_bonds", .ofReal f.minBonds), ("min_fd", .ofReal f.minDeposits)]

/-- The fields. -/
def shape : List (List String) :=
  [["equity_return"], ["bond_return"], ["fd_return"], ["max_equity"], ["min_bonds"], ["min_fd"]]

/-- The portfolio that a JSON value describes. -/
def ofJson? (j : Json α) : Option (Portfolio α) := do
  let base : Portfolio α := .default
  let fields ← j.record? shape
  let equityReturn ← fields.optional? "equity_return" base.equityReturn Json.real?
  let bondReturn ← fields.optional? "bond_return" base.bondReturn Json.real?
  let depositReturn ← fields.optional? "fd_return" base.depositReturn Json.real?
  let maxEquity ← fields.optional? "max_equity" base.maxEquity Json.real?
  let minBonds ← fields.optional? "min_bonds" base.minBonds Json.real?
  let minDeposits ← fields.optional? "min_fd" base.minDeposits Json.real?
  return { equityReturn, bondReturn, depositReturn, maxEquity, minBonds, minDeposits }

end Portfolio

end Allotment.Ready
