import HealthRules.Endpoint

/-!
# What an evaluation adds to a report

The rules of an endpoint are evaluated in a loop, each on the report that those before it left.
Evaluating a rule leaves the probe alone, and depends on nothing else of the report, so every rule
sees the probe of the first report (`Endpoint.foldl_evaluateNext`). The endpoint appends one outcome
for each rule, and the errors of all rules, in the order of the rules, and its verdict is whether
the evaluations answered that every rule passed (`Endpoint.evaluate_eq`).
-/

namespace HealthRules

namespace Report

/-- The answer of an evaluation is whether the outcome that it appends is a success. -/
theorem evaluateRule_eq (r : Report) (rule : Rule) (redact : Bool) :
    r.evaluateRule rule redact =
      ((rule.evaluate r.probe redact).outcome.success, r.add (rule.evaluate r.probe redact)) := rfl

theorem evaluate_eq_add (r : Report) (rule : Rule) (redact : Bool) :
    r.evaluate rule redact = r.add (rule.evaluate r.probe redact) := rfl

/-- Adding evaluations one after the other appends their outcomes and their errors. -/
theorem foldl_add (es : List Evaluation) (r : Report) :
    es.foldl add r = { r with
      outcomes := r.outcomes ++ es.map Evaluation.outcome
      errors := r.errors ++ es.flatMap fun e => e.errors.map RuleError.message } := by
  induction es generalizing r with
  | nil =>
    rw [List.foldl_nil, List.map_nil, List.flatMap_nil, List.append_nil, List.append_nil]
  | cons e es ih =>
    rw [List.foldl_cons, ih]
    simp only [add, List.map_cons, List.flatMap_cons, List.append_assoc, List.singleton_append]

end Report

namespace Endpoint

/-- One turn of the loop: the answer joins those before it, and the evaluation is added. -/
theorem evaluateNext_eq (redact success : Bool) (r : Report) (rule : Rule) :
    evaluateNext redact (success, r) rule =
      (success && (rule.evaluate r.probe redact).outcome.success,
        r.add (rule.evaluate r.probe redact)) := by
  rw [evaluateNext, Report.evaluateRule_eq]

/-- The whole loop: all rules are evaluated on the probe of the first report. -/
theorem foldl_evaluateNext (redact success : Bool) (r : Report) (rules : List Rule) :
    rules.foldl (evaluateNext redact) (success, r) =
      (success && rules.all fun rule => (rule.evaluate r.probe redact).outcome.success,
        (rules.map fun rule => rule.evaluate r.probe redact).foldl Report.add r) := by
  induction rules generalizing success r with
  | nil => rw [List.foldl_nil, List.all_nil, Bool.and_true, List.map_nil, List.foldl_nil]
  | cons rule rules ih =>
    -- adding an evaluation keeps the probe, so the other rules see the same one
    have hprobe : (r.add (rule.evaluate r.probe redact)).probe = r.probe := rfl
    rw [List.foldl_cons, evaluateNext_eq, ih, hprobe, List.all_cons, List.map_cons,
      List.foldl_cons, Bool.and_assoc]

/-- What the rules of an endpoint say of a probe, in order. -/
def evaluations (e : Endpoint) (p : Probe) : List Evaluation :=
  e.rules.map fun rule => rule.evaluate p e.redact

/-- An endpoint appends what its rules say of the probe, and leaves their verdict. -/
theorem evaluate_eq (e : Endpoint) (r : Report) :
    e.evaluate r = { r with
      outcomes := r.outcomes ++ (e.evaluations r.probe).map Evaluation.outcome
      errors := r.errors ++
        (e.evaluations r.probe).flatMap fun v => v.errors.map RuleError.message
      success := (e.evaluations r.probe).all (·.outcome.success)
      severity :=
        Outcome.worst (r.outcomes ++ (e.evaluations r.probe).map Evaluation.outcome) } := by
  have hall : (e.evaluations r.probe).all (·.outcome.success) =
      e.rules.all fun rule => (rule.evaluate r.probe e.redact).outcome.success := List.all_map
  rw [hall, evaluate, foldl_evaluateNext, Report.foldl_add, Bool.true_and]
  rfl

/-- The severity that an endpoint leaves is the worst one of the report. -/
theorem severity_evaluate_eq (e : Endpoint) (r : Report) :
    (e.evaluate r).severity = (e.evaluate r).worst := by
  rw [evaluate_eq]
  rfl

end Endpoint
end HealthRules
