import HealthRules.Severity

/-!
# Outcomes

What is kept of one evaluation of a rule: the text of its condition, with values if it failed,
whether it passed, and how bad the failure is.
-/

namespace HealthRules

structure Outcome where
  condition : String
  success : Bool
  severity : Severity
deriving DecidableEq, Repr

namespace Outcome

/-- Whether every outcome is a success. -/
def allPassed (outcomes : List Outcome) : Bool :=
  outcomes.all (·.success)

/-- The worst severity of a failure, or none without a failure. -/
def worst (outcomes : List Outcome) : Severity :=
  ((outcomes.filter (!·.success)).map (·.severity)).foldl max .none

end Outcome
end HealthRules
