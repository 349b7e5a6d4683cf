import HealthRules.Json.Grammar
import HealthRules.Json.Numeral
import HealthRules.Json.Quoted

/-!
# Reading JSON values

`Json.ofBytes?` reads the JSON value that octets write, and `Json.ofText?` the one that a text
writes. Lists and objects may be nested 127 deep.
-/

namespace HealthRules.Json

/-- What a text denotes as a JSON value. -/
def denotation : Denotation String Json where
  null := .null
  bool := .bool
  number negative bytes := (Numeral.read negative bytes).map fun (n, rest) => (.number n, rest)
  string bytes := (Quoted.text bytes).map fun (s, rest) => (.string s, rest)
  key := Quoted.text
  array := .array
  object := .ofMembers

/-- How many lists and objects may be open at once. -/
def maxDepth : Nat := 127

def ofBytes? (bytes : List UInt8) : Except Located Json :=
  (read denotation maxDepth bytes).mapError (·.locate bytes)

def ofText? (text : List Char) : Except Located Json :=
  ofBytes? (Text.Utf8.encode text)

end HealthRules.Json
