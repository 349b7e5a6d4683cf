import HealthRules.Glob
import HealthRules.Kind
import HealthRules.Operator

/-!
# Comparing operands

A comparand is a value, which may be missing, a list of alternatives or a wildcard pattern. Two
values have an order (`Value.order?`) if both read as durations or numbers: as milliseconds when
one of them is a duration, as whole numbers when both fit 64 bits, as binary numbers otherwise.
Values without an order are equal as truth values, as addresses or as texts. A missing value
satisfies no operator.
-/

namespace HealthRules

/-- A text with its kind. -/
structure Value where
  text : String
  kind : Kind
deriving DecidableEq, Repr

namespace Value

/-- A value written in a condition: its kind is that of its text. -/
def literal (text : String) : Value :=
  ⟨text, Kind.infer text.toList⟩

/-- Whether the value is a duration by its kind or its text. -/
def involvesDuration (v : Value) : Bool :=
  v.kind == .duration || (Duration.literal? v.text.toList).isSome

/-- The milliseconds of a value: those of a duration, or the number itself. -/
def milliseconds? (v : Value) : Option Number.Binary64 :=
  match Duration.literal? v.text.toList with
  | some d => some d.milliseconds
  | none => Number.binary64? v.text.toList

/-- The order of two values, if they have one. -/
def order? (l r : Value) : Option Ordering :=
  if l.involvesDuration || r.involvesDuration then do
    let x ← l.milliseconds?
    let y ← r.milliseconds?
    return x.cmp y
  else
    match Number.signed64? l.text.toList, Number.signed64? r.text.toList with
    | some x, some y => some (compare x y)
    | _, _ => do
      let x ← Number.binary64? l.text.toList
      let y ← Number.binary64? r.text.toList
      return x.cmp y

/-- Whether two values are the same truth value; unknown unless one is of that kind and both read
as one. -/
def sameBoolean? (l r : Value) : Option Bool :=
  if l.kind = .boolean ∨ r.kind = .boolean then do
    let x ← boolean? l.text.toList
    let y ← boolean? r.text.toList
    return x == y
  else none

/-- Whether two values are the same address; unknown unless one is of that kind and both read as
one. -/
def sameAddress? (l r : Value) : Option Bool :=
  if l.kind = .ipAddress ∨ r.kind = .ipAddress then do
    let x ← IpAddress.ofText? l.text.toList
    let y ← IpAddress.ofText? r.text.toList
    return x == y
  else none

/-- Whether two values are equal: by their order, as truth values, as addresses, or as texts, the
first of these that applies. -/
def isEqual (l r : Value) : Bool :=
  match order? l r with
  | some o => o == .eq
  | none =>
    match sameBoolean? l r with
    | some same => same
    | none => (sameAddress? l r).getD (l.text == r.text)

end Value

/-- What an operand becomes before it is compared. -/
inductive Comparand where
  | value (v : Option Value)
  | anyOf (options : List String)
  | pattern (glob : String)
deriving DecidableEq, Repr

/-- Why two comparands have no order. -/
inductive Mismatch where
  | kinds (op : Operator) (left right : Kind)
  | notValues (op : Operator)
deriving DecidableEq, Repr

def Mismatch.message : Mismatch → String
  | kinds op left right =>
    s!"cannot apply {op.symbol} to {left.name} and {right.name} operands"
  | notValues op => s!"{op.symbol} is not supported with any() or pat()"

namespace Comparand

def matchesGlob (glob text : String) : Bool :=
  Glob.isMatch glob.toList text.toList

/-- Whether two comparands are equal; unknown if one is a missing value. -/
def equal? : Comparand → Comparand → Option Bool
  | value l, value r => l.bind fun l => r.map fun r => l.isEqual r
  | pattern p, value v | value v, pattern p => v.map fun v => matchesGlob p v.text
  | anyOf os, value v | value v, anyOf os =>
    v.map fun v => os.any fun o => v.isEqual (Value.literal o)
  | anyOf os, pattern p | pattern p, anyOf os => some (os.any (matchesGlob p))
  | pattern p, pattern q => some (p == q)
  | anyOf os, anyOf qs => some (os == qs)

end Comparand

/-- Whether two values satisfy an operator. -/
def compareValues (left right : Option Value) (op : Operator) : Except Mismatch Bool :=
  match left, right with
  | some l, some r =>
    match op with
    | .eq => .ok (l.isEqual r)
    | .ne => .ok (!l.isEqual r)
    | _ =>
      match l.order? r with
      | some o => .ok (op.holds o)
      | none => .error (.kinds op l.kind r.kind)
  | _, _ => .ok false

/-- Whether two comparands satisfy an operator. -/
def compareOperands (left right : Comparand) (op : Operator) : Except Mismatch Bool :=
  match op with
  | .eq => .ok ((left.equal? right).getD false)
  | .ne => .ok (((left.equal? right).map (!·)).getD false)
  | _ =>
    match left, right with
    | .value l, .value r => compareValues l r op
    | _, _ => .error (.notValues op)

end HealthRules
