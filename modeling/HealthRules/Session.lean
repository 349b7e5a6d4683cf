import HealthRules.Endpoint

/-!
# Sessions

A session is a list of steps on one report: rules and endpoints are evaluated, probe fields change,
outcomes and errors are added or forgotten.
-/

namespace HealthRules

/-- A change to a report. -/
inductive SessionStep where
  | setProbe (change : Probe → Probe)
  | evaluateRule (rule : Rule) (redact : Bool)
  | evaluateEndpoint (endpoint : Endpoint)
  | addError (error : String)
  | addOutcome (outcome : Outcome)
  | clear

namespace Report

/-- One step of a session. -/
def apply (r : Report) : SessionStep → Report
  | .setProbe change => { r with probe := change r.probe }
  | .evaluateRule rule redact => r.evaluate rule redact
  | .evaluateEndpoint endpoint => endpoint.evaluate r
  | .addError error => r.addError error
  | .addOutcome outcome => r.addOutcome outcome
  | .clear => r.clear

/-- The report after all steps. -/
def run (r : Report) (steps : List SessionStep) : Report :=
  steps.foldl apply r

end Report
end HealthRules
