import Allotment.Decimal.Fixed
import Allotment.Decimal.Notation
import Allotment.Pricing
import Allotment.Program.Flaw

/-!
# Wording

The sentences in which flaws, violations and prices are reported. Bounds stand in a sentence
with as few digits as they need, amounts with two places, and prices and slacks with four.
-/

namespace Allotment
set_option autoImplicit false

open Allotment.Decimal

/-- An amount in a sentence. -/
def amountText (x : Float) : String := fixed 2 x false

/-- A price or a slack in a sentence. -/
def priceText (x : Float) : String := fixed 4 x false

/-- What refers to variables, in a sentence. -/
def Place.text : Place → String
  | objective => "objective"
  | constraint label => "constraint " ++ label
  | change => "perturbation"

/-- A number of a program, in a sentence. -/
def Entry.text : Entry → String
  | lowerBound name => "lower bound of " ++ name
  | upperBound name => "upper bound of " ++ name
  | coefficient place name => place.text ++ " coefficient for " ++ name
  | limit label => "limit of " ++ (Place.constraint label).text

/-- What two programs differ in, in a sentence. -/
def Aspect.text : Aspect → String
  | names => "variables"
  | labels => "constraints"
  | relations => "operators"

/-- **The sentence that reports a flaw.** -/
def Flaw.message : Flaw Float → String
  | noVariables => "Problem has no decision variables"
  | duplicateVariable name => "Duplicate variable: " ++ name
  | duplicateConstraint label => "Duplicate constraint label: " ++ label
  | unknownVariable place name =>
    "Unknown variable '" ++ name ++ "' referenced in " ++ place.text
  | unknownConstraint label => "Unknown constraint: " ++ label
  | coefficientCount place expected found =>
    place.text ++ " has " ++ toString found ++ " coefficients but the problem has " ++
      toString expected ++ " variables"
  | negativeLowerBound name lower =>
    "Variable " ++ name ++ " has negative lower bound " ++ sentence.text lower
  | invertedBounds name lower upper =>
    "Variable " ++ name ++ " has upper bound " ++ sentence.text upper ++ " below lower bound " ++
      sentence.text lower
  | nonFinite entry => "Non-finite value in " ++ entry.text
  | shapeMismatch aspect base other =>
    "Problems differ in " ++ aspect.text ++ ": " ++ ", ".intercalate base ++ " vs " ++
      ", ".intercalate other

/-- **The sentence that reports a violation.** -/
def Violation.description (v : Violation Float) : String :=
  match v.relation with
  | .atMost =>
    v.label ++ " exceeds maximum of " ++ amountText v.required ++ " by " ++ amountText v.amount
  | .atLeast =>
    v.label ++ " is below minimum of " ++ amountText v.required ++ " by " ++ amountText v.amount
  | .equal =>
    v.label ++ " requires exactly " ++ amountText v.required ++ " but got " ++
      amountText v.actual

/-- What the objective is called when it is maximized or minimized. -/
def Sense.objectiveWord : Sense → String
  | maximize => "objective"
  | minimize => "cost"

/-- **The sentence that says what a price means.** -/
def PriceMeaning.text : PriceMeaning Float → String
  | unused slack => "Non-binding constraint (" ++ priceText slack ++ " unused)"
  | idle => "Binding, but relaxing it does not change the optimum"
  | moves label sense up amount =>
    "Relaxing " ++ label ++ " by 1 unit would " ++ (if up then "increase" else "decrease") ++
      " the " ++ sense.objectiveWord ++ " by " ++ priceText amount

end Allotment
