import HealthRules.Operand
import HealthRules.Operator

/-!
# Conditions

A condition is an operand, an operator and an operand. In a text the operator has exactly one
space on either side, and no operand holds an operator in this form, is empty, or has white space
at an end. An operator that asks for an order takes neither alternatives nor a pattern.
-/

namespace HealthRules

structure Condition where
  left : Operand
  operator : Operator
  right : Operand
deriving DecidableEq, Repr

namespace Condition

/-- The first operator, in the order of `Operator.all`, that occurs in the text with its spaces,
and the texts before and after its first occurrence. -/
def cut? (cs : List Char) : Option (Operator × List Char × List Char) :=
  Operator.all.findSome? fun op => (Text.cut? op.spaced cs).map fun sides => (op, sides)

/-- Whether a text can stand on one side of a condition. -/
def isSide (cs : List Char) : Bool :=
  !cs.isEmpty && Text.trim cs == cs && Operator.all.all fun op => !Text.contains op.spaced cs

/-- Whether both operands can stand beside the operator. -/
def isSorted (c : Condition) : Bool :=
  !c.operator.isOrdering || (c.left.meaning.isOrderable && c.right.meaning.isOrderable)

/-- The condition that a list of characters writes. -/
def ofChars? (cs : List Char) : Option Condition := do
  let (operator, left, right) ← cut? cs
  guard (isSide left && isSide right)
  let left ← Operand.ofText? left
  let right ← Operand.ofText? right
  let condition : Condition := ⟨left, operator, right⟩
  guard condition.isSorted
  return condition

/-- The condition that a text writes. -/
def ofText? (text : String) : Option Condition :=
  ofChars? text.toList

/-- A condition as it is written. -/
def text (c : Condition) : String :=
  c.left.text ++ String.ofList c.operator.spaced ++ c.right.text

end Condition
end HealthRules
