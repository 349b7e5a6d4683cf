import HealthRules.Rule
import HealthRules.Timestamp

/-!
# Reports

A report is a probe with what was found on it: the outcomes of rules and the errors, in the order in
which they arose, and the verdict that the last endpoint left. Evaluating a rule answers whether it
passed, and only appends.
-/

namespace HealthRules

structure Report where
  probe : Probe
  success : Bool
  severity : Severity
  outcomes : List Outcome
  errors : List String
  timestamp : Timestamp
deriving DecidableEq, Repr

namespace Report

/-- A report on which nothing was found yet. -/
def fresh (probe : Probe) (timestamp : Timestamp) : Report where
  probe := probe
  success := false
  severity := .none
  outcomes := []
  errors := []
  timestamp := timestamp

/-- Appends what an evaluation gave. -/
def add (r : Report) (e : Evaluation) : Report :=
  { r with
    outcomes := r.outcomes ++ [e.outcome]
    errors := r.errors ++ e.errors.map RuleError.message }

/-- Evaluates a rule on the probe of the report. The answer is whether the rule passed; what the
evaluation gave is appended. -/
def evaluateRule (r : Report) (rule : Rule) (redact : Bool) : Bool × Report :=
  let evaluation := rule.evaluate r.probe redact
  (evaluation.outcome.success, r.add evaluation)

/-- The report after the evaluation of a rule. -/
def evaluate (r : Report) (rule : Rule) (redact : Bool) : Report :=
  (r.evaluateRule rule redact).2

def addError (r : Report) (error : String) : Report :=
  { r with errors := r.errors ++ [error] }

def addOutcome (r : Report) (outcome : Outcome) : Report :=
  { r with outcomes := r.outcomes ++ [outcome] }

/-- Forgets outcomes and errors, but not the verdict. -/
def clear (r : Report) : Report :=
  { r with outcomes := [], errors := [] }

/-- Whether every outcome is a success. -/
def allPassed (r : Report) : Bool :=
  Outcome.allPassed r.outcomes

/-- The worst severity of a failure among the outcomes. -/
def worst (r : Report) : Severity :=
  Outcome.worst r.outcomes

end Report
end HealthRules
