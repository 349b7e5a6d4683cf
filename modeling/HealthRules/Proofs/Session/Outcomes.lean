import Mathlib
import HealthRules.Proofs.Evaluation.Record
import HealthRules.Proofs.Evaluation.Report
import HealthRules.Proofs.Evaluation.Worst
import HealthRules.Session

/-!
# Outcomes over a session

In every report that a session leads to, an outcome has no severity exactly if it is a success, as
long as all outcomes come from rules. What is invariant under one step (`Report.Graded.apply`) holds
after all of them (`Report.Graded.run`). Until outcomes and errors are cleared, a step only appends
(`Report.extends_apply`), so the worst severity never gets better. Together:
`Report.Reached.outcomes_graded`.
-/

namespace HealthRules

/-- Whether a step adds an outcome that no rule gave. -/
def SessionStep.isForeign : SessionStep → Bool
  | addOutcome _ => true
  | setProbe _ | evaluateRule _ _ | evaluateEndpoint _ | addError _ | clear => false

/-- A rule gives its outcome a severity exactly if it fails. -/
theorem Rule.graded_evaluate (r : Rule) (p : Probe) (redact : Bool) :
    (r.evaluate p redact).outcome.Graded := by
  unfold Outcome.Graded
  rw [success_evaluate, severity_evaluate]
  cases r.passes p with
  | true => exact ⟨fun _ => rfl, fun _ => rfl⟩
  | false =>
    -- a failure has the severity of the rule, which is never none
    constructor
    · intro h
      exact absurd h r.severity_ne_none
    · intro h
      exact absurd h (by decide)

namespace Report

/-- A report that a session made of a fresh one, with no outcomes but those of rules. -/
def Reached (r : Report) : Prop :=
  ∃ (probe : Probe) (timestamp : Timestamp) (steps : List SessionStep),
    (∀ step ∈ steps, step.isForeign = false) ∧ r = (fresh probe timestamp).run steps

/-! ## What every step keeps -/

/-- Every outcome has no severity exactly if it is a success. -/
def Graded (r : Report) : Prop :=
  ∀ o ∈ r.outcomes, o.Graded

theorem graded_fresh (probe : Probe) (timestamp : Timestamp) : (fresh probe timestamp).Graded :=
  List.forall_mem_nil _

/-- One step keeps all outcomes graded, unless it brings one from elsewhere: a rule or an endpoint
appends outcomes of rules, and nothing changes an outcome that is there. -/
theorem Graded.apply {r : Report} (h : r.Graded) {step : SessionStep}
    (hown : step.isForeign = false) : (r.apply step).Graded := by
  cases step with
  | setProbe change => exact h
  | evaluateRule rule redact =>
    intro o ho
    rcases List.mem_append.mp ho with hold | hnew
    · exact h o hold
    · rw [List.mem_singleton.mp hnew]
      exact rule.graded_evaluate r.probe redact
  | evaluateEndpoint endpoint =>
    intro o ho
    rw [Report.apply, Endpoint.evaluate_eq] at ho
    rcases List.mem_append.mp ho with hold | hnew
    · exact h o hold
    · obtain ⟨v, hv, rfl⟩ := List.mem_map.mp hnew
      obtain ⟨rule, -, rfl⟩ := List.mem_map.mp hv
      exact rule.graded_evaluate r.probe endpoint.redact
  | addError error => exact h
  | addOutcome outcome => exact absurd hown (by simp [SessionStep.isForeign])
  | clear => exact List.forall_mem_nil _

/-- So do all steps of a session, by induction on them. -/
theorem Graded.run {r : Report} (h : r.Graded) {steps : List SessionStep}
    (hown : ∀ step ∈ steps, step.isForeign = false) : (r.run steps).Graded := by
  induction steps generalizing r with
  | nil => exact h
  | cons step steps ih =>
    rw [List.forall_mem_cons] at hown
    exact ih (h.apply hown.1) hown.2

theorem Reached.graded {r : Report} (h : r.Reached) : r.Graded := by
  obtain ⟨probe, timestamp, steps, hown, rfl⟩ := h
  exact (graded_fresh probe timestamp).run hown

/-! ## Steps that only append -/

/-- A report extends another if it has its outcomes and errors, and perhaps more behind them. -/
structure Extends (r s : Report) : Prop where
  outcomes : r.outcomes <+: s.outcomes
  errors : r.errors <+: s.errors

theorem Extends.refl (r : Report) : r.Extends r :=
  ⟨List.prefix_refl _, List.prefix_refl _⟩

theorem Extends.trans {r s t : Report} (hrs : r.Extends s) (hst : s.Extends t) : r.Extends t :=
  ⟨hrs.outcomes.trans hst.outcomes, hrs.errors.trans hst.errors⟩

/-- Only clearing removes anything. -/
theorem extends_apply (r : Report) {step : SessionStep} (h : step ≠ .clear) :
    r.Extends (r.apply step) := by
  cases step with
  | setProbe change => exact ⟨List.prefix_refl _, List.prefix_refl _⟩
  | evaluateRule rule redact => exact ⟨List.prefix_append _ _, List.prefix_append _ _⟩
  | evaluateEndpoint endpoint =>
    rw [Report.apply, Endpoint.evaluate_eq]
    exact ⟨List.prefix_append _ _, List.prefix_append _ _⟩
  | addError error => exact ⟨List.prefix_refl _, List.prefix_append _ _⟩
  | addOutcome outcome => exact ⟨List.prefix_append _ _, List.prefix_refl _⟩
  | clear => exact absurd rfl h

/-- Without clearing, all steps of a session together append only. -/
theorem extends_run (r : Report) {steps : List SessionStep} (h : .clear ∉ steps) :
    r.Extends (r.run steps) := by
  induction steps generalizing r with
  | nil => exact Extends.refl r
  | cons step steps ih =>
    rw [List.mem_cons, not_or] at h
    exact (extends_apply r (Ne.symm h.1)).trans (ih (r.apply step) h.2)

/-! ## Whole sessions -/

/-- Every outcome that a session stores has no severity exactly if it is a success. So everything
passed exactly if there is no worst severity, and otherwise the worst severity is that of a failure
which no other failure exceeds. As long as the session goes on without clearing, outcomes and errors
are only appended, the worst severity never falls, and what has failed stays failed. -/
theorem Reached.outcomes_graded {r : Report} (h : r.Reached) :
    (∀ o ∈ r.outcomes, o.severity = .none ↔ o.success = true) ∧
    (r.allPassed = true ↔ r.worst = .none) ∧
    (r.allPassed = false →
      (∃ o ∈ r.outcomes, o.success = false ∧ o.severity = r.worst) ∧
      ∀ o ∈ r.outcomes, o.success = false → o.severity.code ≤ r.worst.code) ∧
    (∀ more : List SessionStep, .clear ∉ more →
      r.outcomes <+: (r.run more).outcomes ∧ r.errors <+: (r.run more).errors ∧
      r.worst.code ≤ (r.run more).worst.code ∧
      (r.allPassed = false → (r.run more).allPassed = false)) := by
  have hiff : r.allPassed = true ↔ r.worst = .none := Outcome.allPassed_iff h.graded
  refine ⟨h.graded, hiff, ?_, ?_⟩
  · intro hfail
    have hworst : r.worst ≠ .none := by
      rw [ne_eq, ← hiff, hfail]
      decide
    exact ⟨Outcome.exists_worst hworst, fun o ho => Outcome.code_le_worst ho⟩
  · intro more hmore
    have hext := r.extends_run hmore
    refine ⟨hext.outcomes, hext.errors, Outcome.code_worst_mono hext.outcomes, ?_⟩
    intro hfail
    rw [← Bool.not_eq_true] at hfail ⊢
    exact fun hall => hfail (Outcome.allPassed_of_prefix hext.outcomes hall)

/-- A failure of low severity stays the worst while another rule passes. -/
theorem Reached.outcomes_graded_low :
    let r := (fresh Probe.empty .epoch).run [.evaluateRule ⟨"Low :: [STATUS] == 200"⟩ false]
    r.Reached ∧ Severity.low.code ≤ (r.run [.evaluateRule ⟨"[STATUS] == 0"⟩ false]).worst.code := by
  intro r
  have hreached : r.Reached := ⟨Probe.empty, .epoch, _, by simp [SessionStep.isForeign], rfl⟩
  have hlow : r.worst = .low := by decide +kernel
  obtain ⟨-, -, hworst, -⟩ :=
    hreached.outcomes_graded.2.2.2 [.evaluateRule ⟨"[STATUS] == 0"⟩ false] (by simp)
  rw [hlow] at hworst
  exact ⟨hreached, hworst⟩

end Report
end HealthRules
