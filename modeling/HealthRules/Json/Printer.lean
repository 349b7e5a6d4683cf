import HealthRules.Json.Numeral
import HealthRules.Json.Quoted

/-!
# Writing JSON values

`compact` writes a value without any white space, the members of an object in their order.
-/

namespace HealthRules.Json

mutual

def compact : Json → List Char
  | .null => ['n', 'u', 'l', 'l']
  | .bool true => ['t', 'r', 'u', 'e']
  | .bool false => ['f', 'a', 'l', 's', 'e']
  | .number n => n.print
  | .string s => Quoted.quote s
  | .array [] => ['[', ']']
  | .array (item :: items) => '[' :: compact item ++ compactItems items
  | .object [] => ['{', '}']
  | .object ((key, value) :: members) =>
    '{' :: Quoted.quote key ++ ':' :: compact value ++ compactMembers members

/-- The items after the first, each after a comma, and the closing bracket. -/
def compactItems : List Json → List Char
  | [] => [']']
  | item :: items => ',' :: compact item ++ compactItems items

/-- The members after the first, each after a comma, and the closing brace. -/
def compactMembers : List (String × Json) → List Char
  | [] => ['}']
  | (key, value) :: members =>
    ',' :: Quoted.quote key ++ ':' :: compact value ++ compactMembers members

end

/-- The text of a value without any white space. -/
def text (j : Json) : String :=
  String.ofList j.compact

end HealthRules.Json
