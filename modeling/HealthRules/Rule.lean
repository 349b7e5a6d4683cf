import HealthRules.Condition
import HealthRules.Explanation
import HealthRules.Outcome
import HealthRules.Resolution

/-!
# Rules

A rule is a text: a severity mark, which may be missing, and a condition. `Rule.check` says whether
the condition is well formed. `Rule.evaluate` decides it on a probe and gives one outcome and the
errors that kept operands from having a value; it depends on nothing else, and nothing that was
evaluated before.
-/

namespace HealthRules

structure Rule where
  text : String
deriving DecidableEq, Repr

/-- One outcome, and the errors on the way to it. -/
structure Evaluation where
  outcome : Outcome
  errors : List RuleError
deriving DecidableEq, Repr

namespace Operand

/-- What an operand is compared as, and the error that left it without a value. -/
def comparand (o : Operand) (p : Probe) : Comparand × List RuleError :=
  match o.meaning with
  | .field field =>
    match field.resolve? p with
    | .ok v => (.value (some v), [])
    | .error fault => (.value none, [.unresolved o.text fault])
  | .length field =>
    match field.lengthOf? o.text p with
    | .ok v => (.value (some v), [])
    | .error e => (.value none, [e])
  | .presence field => (.value (some (field.presenceOf p)), [])
  | .anyOf options => (.anyOf options, [])
  | .pattern glob => (.pattern glob, [])
  | .literal text => (.value (some (Value.literal text)), [])

/-- The value that is shown behind an operand: of those that are read from the probe only. -/
def shownValue (o : Operand) (c : Comparand) : Option String :=
  if o.isRead then
    match c with
    | .value (some v) => some v.text
    | .value none => some Explanation.missing
    | .anyOf _ | .pattern _ => none
  else none

end Operand

namespace Condition

/-- Whether the condition holds for a probe, its text as the outcome shows it, and the errors. -/
def evaluate (c : Condition) (text : String) (p : Probe) (redact : Bool) :
    Bool × String × List RuleError :=
  let (left, leftErrors) := c.left.comparand p
  let (right, rightErrors) := c.right.comparand p
  let (success, errors) := match compareOperands left right c.operator with
    | .ok success => (success, [])
    | .error m => (false, [.mismatch m])
  let pairs := [(c.left.text, c.left.shownValue left), (c.right.text, c.right.shownValue right)]
  (success, Explanation.explain text pairs success redact, leftErrors ++ rightErrors ++ errors)

end Condition

namespace Rule

/-- The severity of a rule's failures. -/
def severity (r : Rule) : Severity :=
  (Severity.split r.text.toList).1

/-- The text of a rule without its severity mark. -/
def body (r : Rule) : String :=
  String.ofList (Severity.split r.text.toList).2

/-- Whether the rule holds a well-formed condition. -/
def check (r : Rule) : Except RuleError Unit :=
  match Condition.ofText? r.body with
  | some _ => .ok ()
  | none => .error (.invalidCondition r.text)

/-- Decides a rule on a probe. With `redact` the outcome shows no values. -/
def evaluate (r : Rule) (p : Probe) (redact : Bool) : Evaluation :=
  match Condition.ofText? r.body with
  | some c =>
    let (success, text, errors) := c.evaluate r.body p redact
    ⟨⟨text, success, if success then .none else r.severity⟩, errors⟩
  | none => ⟨⟨r.body, false, r.severity⟩, [.invalidCondition r.text]⟩

/-- Whether the token of a field occurs in the rule. -/
def mentions (token : String) (r : Rule) : Bool :=
  Text.contains token.toList r.text.toList

def mentionsBody : Rule → Bool := mentions Field.bodyToken
def mentionsIp : Rule → Bool := mentions Field.ipToken
def mentionsDomainExpiration : Rule → Bool := mentions Field.domainExpirationToken
def mentionsCertificateExpiration : Rule → Bool := mentions Field.certificateExpirationToken

end Rule
end HealthRules
