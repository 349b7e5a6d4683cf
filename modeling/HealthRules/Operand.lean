import HealthRules.Field
import HealthRules.Text.Blank

/-!
# Operands

An operand is a text with a meaning: a field, `len(...)` or `has(...)` of a field, a list of
alternatives `any(...)`, a wildcard pattern `pat(...)`, or the text itself. The name of a call
ends at the first opening parenthesis and the call at the last character, which has to close it;
a text that does not have this form, or calls anything else, is a literal unless it starts with
an opening bracket.
-/

namespace HealthRules

/-- What the text of an operand stands for. -/
inductive Meaning where
  | field (f : Field)
  | length (f : Field)
  | presence (f : Field)
  | anyOf (options : List String)
  | pattern (glob : String)
  | literal (text : String)
deriving DecidableEq, Repr

structure Operand where
  text : String
  meaning : Meaning
deriving DecidableEq, Repr

namespace Meaning

/-- The name and the argument of a call `name(argument)`. -/
def call? (cs : List Char) : Option (List Char × List Char) :=
  (Text.cut? ['('] cs).bind fun (name, rest) =>
    (Text.before? ')' rest).map fun argument => (name, argument)

/-- The alternatives of an argument: split at commas, without white space around them, none of
them empty. -/
def options? (argument : List Char) : Option (List String) :=
  let options := (argument.splitOn ',').map Text.trim
  if options.any List.isEmpty then none else some (options.map String.ofList)

/-- The meaning of a text that is not a call of a known name. -/
def plain? (cs : List Char) : Option Meaning :=
  if cs.head? = some '[' then (Field.ofToken? cs).map field
  else some (literal (String.ofList cs))

/-- What the text of an operand stands for, if it is well formed. -/
def ofText? (cs : List Char) : Option Meaning :=
  match call? cs with
  | some (name, argument) =>
    if name = "len".toList then (Field.ofToken? argument).map length
    else if name = "has".toList then (Field.ofToken? argument).map presence
    else if name = "any".toList then (options? argument).map anyOf
    else if name = "pat".toList then
      if argument = [] then none else some (pattern (String.ofList argument))
    else plain? cs
  | none => plain? cs

/-- Whether the meaning takes its value from a probe. -/
def isRead : Meaning → Bool
  | field _ | length _ | presence _ => true
  | anyOf _ | pattern _ | literal _ => false

/-- Whether the meaning can stand beside an operator that asks for an order. -/
def isOrderable : Meaning → Bool
  | anyOf _ | pattern _ => false
  | field _ | length _ | presence _ | literal _ => true

end Meaning

namespace Operand

def ofText? (cs : List Char) : Option Operand :=
  (Meaning.ofText? cs).map fun meaning => ⟨String.ofList cs, meaning⟩

/-- Whether the operand takes its value from a probe. -/
def isRead (o : Operand) : Bool :=
  o.meaning.isRead

end Operand
end HealthRules
