import Mathlib
import HealthRules.Proofs.Session.Outcomes

/-!
# The verdict over a session

An endpoint leaves a verdict: whether all of its rules passed now, and the worst severity of all
outcomes in the report. The two agree unless something failed before and everything passes now
(`Report.Reached.verdict_iff`). Then the verdict is a success with a severity, as when two endpoints
are evaluated on one report (`Report.run_verdict_two_endpoints`).
-/

namespace HealthRules

namespace Endpoint

theorem success_evaluate_eq (e : Endpoint) (r : Report) :
    (e.evaluate r).success = e.rules.all fun rule => rule.passes r.probe := by
  rw [evaluate_eq]
  simp only [evaluations, List.all_map, Function.comp_def, Rule.success_evaluate]

theorem allPassed_evaluate (e : Endpoint) (r : Report) :
    (e.evaluate r).allPassed = (r.allPassed && (e.evaluate r).success) := by
  rw [evaluate_eq]
  show Outcome.allPassed _ = _
  rw [Outcome.allPassed_append]
  simp only [Outcome.allPassed, List.all_map, Function.comp_def]
  rfl

end Endpoint

namespace Report

/-- In a report that a session leads to, the verdict of an endpoint is a success exactly if all of
its rules pass, and its severity is none exactly if everything in the report passed. So the verdict
is consistent exactly if everything passed before or some rule fails now: exactly then it is a
success just in case it has no severity, and exactly then it is whether everything passed. -/
theorem Reached.verdict_iff {r : Report} (h : r.Reached) (e : Endpoint) :
    (e.evaluate r).success = (e.rules.all fun rule => rule.passes r.probe) ∧
    ((e.evaluate r).severity = .none ↔ (e.evaluate r).allPassed = true) ∧
    (((e.evaluate r).success = true ↔ (e.evaluate r).severity = .none) ↔
      (r.allPassed = true ∨ ∃ rule ∈ e.rules, rule.passes r.probe = false)) ∧
    ((e.evaluate r).success = (e.evaluate r).allPassed ↔
      (r.allPassed = true ∨ ∃ rule ∈ e.rules, rule.passes r.probe = false)) := by
  have hsuccess := e.success_evaluate_eq r
  have hgraded : (r.apply (.evaluateEndpoint e)).Graded := h.graded.apply rfl
  have hseverity : (e.evaluate r).severity = .none ↔ (e.evaluate r).allPassed = true := by
    rw [e.severity_evaluate_eq]
    exact (Outcome.allPassed_iff hgraded).symm
  have hfails : (∃ rule ∈ e.rules, rule.passes r.probe = false) ↔
      (e.evaluate r).success = false := by
    rw [hsuccess, List.all_eq_false]
    simp only [Bool.not_eq_true]
  refine ⟨hsuccess, hseverity, ?_, ?_⟩
  -- everything passed exactly if it did before and does now: the rest is about these two
  · rw [hseverity, hfails, e.allPassed_evaluate]
    cases r.allPassed <;> cases (e.evaluate r).success <;> decide
  · rw [hfails, e.allPassed_evaluate]
    cases r.allPassed <;> cases (e.evaluate r).success <;> decide

/-- After a failure of low severity, an endpoint with a failing rule leaves a consistent verdict. -/
theorem Reached.verdict_iff_low :
    let r := (fresh Probe.empty .epoch).run [.evaluateRule ⟨"Low :: [STATUS] == 200"⟩ false]
    let e : Endpoint := ⟨"api", "", "", [⟨"[STATUS] != 0"⟩], false⟩
    r.Reached ∧ r.allPassed = false ∧ (e.evaluate r).success = (e.evaluate r).allPassed := by
  intro r e
  have hreached : r.Reached := ⟨Probe.empty, .epoch, _, by simp [SessionStep.isForeign], rfl⟩
  have hfailed : r.allPassed = false := by decide +kernel
  have hfails : Rule.passes ⟨"[STATUS] != 0"⟩ r.probe = false := by decide +kernel
  obtain ⟨-, -, -, hconsistent⟩ := hreached.verdict_iff e
  exact ⟨hreached, hfailed,
    hconsistent.mpr (.inr ⟨⟨"[STATUS] != 0"⟩, List.mem_cons_self, hfails⟩)⟩

/-- Two endpoints on one report, the first of which fails: the verdict of the second is a success
with the severity of the first, and not everything passed. -/
theorem run_verdict_two_endpoints :
    let r := (fresh Probe.empty .epoch).run
      [.evaluateEndpoint ⟨"first", "", "", [⟨"Low :: [STATUS] == 200"⟩], false⟩,
        .evaluateEndpoint ⟨"second", "", "", [⟨"[STATUS] == 0"⟩], false⟩]
    r.success = true ∧ r.severity = .low ∧ r.allPassed = false := by
  decide +kernel

end Report
end HealthRules
