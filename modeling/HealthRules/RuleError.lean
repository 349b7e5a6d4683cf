import HealthRules.Comparison
import HealthRules.Json.Fault

/-!
# What can go wrong with a rule

The causes for which a rule is refused or fails without being decided, and their wording.
-/

namespace HealthRules

/-- Why a path does not lead to a value of a body. -/
inductive PathFault where
  | notJson (fault : Json.Located)
  | notObject (key : String)
  | noKey (key : String)
  | notArray (index : Nat)
  | outOfRange (index length : Nat)
deriving DecidableEq, Repr

def PathFault.message : PathFault → String
  | notJson fault => s!"body is not valid JSON: {fault.message}"
  | notObject key => s!"cannot read key '{key}' of a non-object value"
  | noKey key => s!"key '{key}' not found"
  | notArray index => s!"cannot read index {index} of a non-array value"
  | outOfRange index length => s!"index {index} out of range (length {length})"

/-- Why a value has no length. -/
inductive LengthFault where
  | badArray (operand : String)
  | wrongKind (operand : String) (kind : Kind)
deriving DecidableEq, Repr

def LengthFault.message : LengthFault → String
  | badArray operand => s!"{operand} is not a valid array"
  | wrongKind operand kind => s!"{operand} has kind {kind.name}"

inductive RuleError where
  | invalidCondition (text : String)
  | unresolved (operand : String) (fault : PathFault)
  | noLength (fault : LengthFault)
  | mismatch (mismatch : Mismatch)
  | unknownSeverity (code : Int)
deriving DecidableEq, Repr

def RuleError.message : RuleError → String
  | invalidCondition text => s!"invalid condition: {text}"
  | unresolved operand fault => s!"failed to resolve {operand}: {fault.message}"
  | noLength fault => s!"invalid use of len(): {fault.message}"
  | mismatch m => s!"type mismatch: {m.message}"
  | unknownSeverity code => s!"unknown severity code: {code}"

end HealthRules
