import HealthRules.Duration
import HealthRules.IpAddress
import HealthRules.Number.Decimal

/-!
# Kinds of values

Every value is a text with a kind. A field of a probe gives its kind with it; a literal gets the
kind of what its text reads as, tried in the order of `Kind.infer`.
-/

namespace HealthRules

inductive Kind where
  | integer
  | float
  | boolean
  | duration
  | ipAddress
  | string
  | array
deriving DecidableEq, Repr

namespace Kind

def name : Kind → String
  | integer => "Integer"
  | float => "Float"
  | boolean => "Boolean"
  | duration => "Duration"
  | ipAddress => "IPAddress"
  | string => "String"
  | array => "Array"

def all : List Kind := [integer, float, boolean, duration, ipAddress, string, array]

def ofName? (name : String) : Option Kind :=
  all.find? (·.name == name)

theorem ofName?_name (k : Kind) : ofName? k.name = some k := by
  cases k <;> rfl

/-- Whether values of the kind have an order. -/
def isNumeric : Kind → Bool
  | integer | float | duration => true
  | boolean | ipAddress | string | array => false

end Kind

/-- The truth value that a text writes. -/
def boolean? (cs : List Char) : Option Bool :=
  if cs = ['t', 'r', 'u', 'e'] then some true
  else if cs = ['f', 'a', 'l', 's', 'e'] then some false
  else none

/-- The kind of a literal. -/
def Kind.infer (cs : List Char) : Kind :=
  if (boolean? cs).isSome then boolean
  else if (Number.signed64? cs).isSome then integer
  else if (Number.binary64? cs).isSome then float
  else if (IpAddress.ofText? cs).isSome then ipAddress
  else if (Duration.literal? cs).isSome then duration
  else string

end HealthRules
