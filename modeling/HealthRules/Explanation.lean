import HealthRules.Text.Search

/-!
# Explaining a failure

A condition that failed is shown with the values of its operands: ` (value)` right after each. The
operands are found from left to right, each in the part of the text behind the one before.
-/

namespace HealthRules.Explanation

/-- A value as it is shown behind an operand. -/
def shown : Option String → List Char
  | some value => ' ' :: '(' :: value.toList ++ [')']
  | none => []

/-- The text with the value of each token behind its first occurrence after the token before; a
token that does not occur there is passed over. -/
def insertValues : List (String × Option String) → List Char → List Char
  | [], text => text
  | (token, value) :: pairs, text =>
    match Text.cut? token.toList text with
    | some (before, after) =>
      before ++ token.toList ++ shown value ++ insertValues pairs after
    | none => insertValues pairs text

/-- A condition as an outcome shows it: with values if it failed and they may be shown. -/
def explain (text : String) (pairs : List (String × Option String)) (success redact : Bool) :
    String :=
  if success || redact then text else String.ofList (insertValues pairs text.toList)

/-- What is shown for a value that is missing. -/
def missing : String := "INVALID"

end HealthRules.Explanation
