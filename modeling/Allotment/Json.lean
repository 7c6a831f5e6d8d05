import Allotment.NameMap
import Allotment.Scalar

/-!
# JSON values

The values that records are written as and read from. Whole numbers and reals are kept apart,
because some fields admit whole numbers only, and the members of an object keep their order and
their repetitions, because a record may not have a field twice.

The readers of this module are strict about kinds and lenient about what they do not know: a
member that no field asks for is left out of account. `Json.record?` finds the fields of a
record, each under its own name or another one it goes by.
-/

namespace Allotment
set_option autoImplicit false

/-- **A JSON value**, with reals of some number system. -/
inductive Json (α : Type) where
  | null
  | bool (value : Bool)
  | int (value : Int)
  | real (value : α)
  | str (value : String)
  | arr (items : List (Json α))
  | obj (members : List (String × Json α))
  deriving Repr

/-- The fields of a record that are present, each with its own name. -/
abbrev Fields (α : Type) := List (String × Json α)

namespace Json

variable {α β : Type} [Scalar α]

/-! ## Writing -/

/-- A number, where it is finite; there is no JSON number for another. -/
def ofReal (x : α) : Json α := if Scalar.isFinite x then real x else null

/-- A count. -/
def ofNat (n : Nat) : Json α := int n

/-- A value that may be absent, which is written as null then. -/
def ofOption (write : β → Json α) : Option β → Json α
  | none => null
  | some value => write value

/-- A list. -/
def ofList (write : β → Json α) (values : List β) : Json α := arr (values.map write)

/-- A map from names. -/
def ofMap (write : β → Json α) (m : NameMap β) : Json α :=
  obj (m.entries.map fun entry => (entry.1, write entry.2))

/-! ## Reading -/

/-- A text. -/
def string? : Json α → Option String
  | str s => some s
  | _ => none

/-- A truth value. -/
def bool? : Json α → Option Bool
  | bool b => some b
  | _ => none

/-- A number, if it is finite. -/
def finite? (x : α) : Option α := if Scalar.isFinite x then some x else none

/-- A finite number, whole or not. -/
def real? : Json α → Option α
  | int n => finite? (Scalar.ofInt n)
  | real x => finite? x
  | _ => none

/-- A whole number that is not negative and below a bound. -/
def natBelow? (bound : Nat) : Json α → Option Nat
  | int n => if 0 ≤ n && n < bound then some n.toNat else none
  | _ => none

/-- A value that may be null. -/
def option? (read? : Json α → Option β) : Json α → Option (Option β)
  | null => some none
  | j => (read? j).map some

/-- A list of values. -/
def list? (read? : Json α → Option β) : Json α → Option (List β)
  | arr items => items.mapM read?
  | _ => none

/-- A map from names; the last of several members with one name counts. -/
def map? (read? : Json α → Option β) : Json α → Option (NameMap β)
  | obj members =>
    (members.mapM fun m => (read? m.2).map fun value => (m.1, value)).map NameMap.ofList
  | _ => none

/-- One of several named choices, as its name or as an object that maps its name to null. -/
def choice? (choices : List (String × β)) : Json α → Option β
  | str name => (choices.find? (·.1 == name)).map (·.2)
  | obj [(name, null)] => (choices.find? (·.1 == name)).map (·.2)
  | _ => none

/-- The member of an object for one field, which goes by any of some names; none is fine, two
are not. -/
def member? (names : List String) (members : List (String × Json α)) :
    Option (Option (Json α)) :=
  match members.filter fun m => names.contains m.1 with
  | [] => some none
  | [m] => some (some m.2)
  | _ => none

/-- **The fields of a record.** A shape lists for each field the names it goes by, its own name
first. An object gives the fields by name; a list gives them by their order, from the first. -/
def record? (shape : List (List String)) : Json α → Option (Fields α)
  | obj members => do
    let found ← shape.mapM fun names => (member? names members).map fun j => (names.headD "", j)
    return found.filterMap fun f => f.2.map fun j => (f.1, j)
  | arr items =>
    if items.length ≤ shape.length then some ((shape.map (·.headD "")).zip items) else none
  | _ => none

end Json

namespace Fields

variable {α β : Type}

/-- The value of a field that has to be there. -/
def required? (fields : Fields α) (name : String) (read? : Json α → Option β) : Option β :=
  (fields.lookup name).bind read?

/-- The value of a field that has a value also when it is absent. -/
def optional? (fields : Fields α) (name : String) (default : β) (read? : Json α → Option β) :
    Option β :=
  match fields.lookup name with
  | none => some default
  | some j => read? j

end Fields

end Allotment
