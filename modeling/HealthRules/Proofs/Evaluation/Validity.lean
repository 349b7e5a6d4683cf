import Mathlib
import HealthRules.Proofs.Configuration.Check
import HealthRules.Proofs.Evaluation.Record
import HealthRules.Proofs.Evaluation.Report

/-!
# Checks and evaluations agree

A rule that passes its check never reports that it is malformed, whatever the probe, and a rule that
does not pass reports exactly what the check said (`Config.check_agrees`). So a configuration that
was accepted causes no such report at all.

Reports hold messages only, so it is also needed that no other error reads like one about a
malformed rule (`RuleError.exists_invalidCondition_of_lead`).
-/

namespace HealthRules

namespace Rule

theorem check_eq_error_iff {r : Rule} {error : RuleError} :
    r.check = .error error ↔
      Condition.ofText? r.body = none ∧ error = .invalidCondition r.text := by
  unfold check
  cases Condition.ofText? r.body with
  | none => simp [eq_comm]
  | some c => simp

/-- No message of a rule that passes its check starts like one about a malformed rule. -/
theorem message_of_check {r : Rule} (h : r.check = .ok ()) {p : Probe} {redact : Bool}
    {error : RuleError} (herror : error ∈ (r.evaluate p redact).errors) :
    ¬ "invalid condition: ".toList <+: error.message.toList := by
  intro hlead
  obtain ⟨text, rfl⟩ := RuleError.exists_invalidCondition_of_lead hlead
  obtain ⟨c, hc⟩ := check_eq_ok_iff.mp h
  have hnone := (r.errors_evaluate p redact).eq_none_of_invalidCondition herror
  rw [hc] at hnone
  exact absurd hnone (by simp)

end Rule

/-- The same for all rules of an endpoint that passes its check. -/
theorem Endpoint.message_of_check {e : Endpoint} (h : e.check = .ok ()) {p : Probe}
    {message : String}
    (hmessage : message ∈ (e.evaluations p).flatMap fun v => v.errors.map RuleError.message) :
    ¬ "invalid condition: ".toList <+: message.toList := by
  obtain ⟨v, hv, herror⟩ := List.mem_flatMap.mp hmessage
  obtain ⟨rule, hrule, rfl⟩ := List.mem_map.mp hv
  obtain ⟨error, hmem, rfl⟩ := List.mem_map.mp herror
  obtain ⟨-, -, hrules⟩ := check_eq_ok_iff.mp h
  exact Rule.message_of_check (hrules rule hrule) hmem

/-- Checks and evaluations agree. A rule that passes its check appends no message about a malformed
rule. A rule that does not pass is refused with its whole text, and when it is evaluated all the
same it does not pass: it appends the message of that refusal and one failure, with its text behind
the severity mark and its severity. So no endpoint of a configuration that passes its check appends
a message about a malformed rule. -/
theorem Config.check_agrees :
    (∀ (rule : Rule) (r : Report) (redact : Bool), rule.check = .ok () →
      ∃ messages, (r.evaluate rule redact).errors = r.errors ++ messages ∧
        ∀ message ∈ messages, ¬ "invalid condition: ".toList <+: message.toList) ∧
    (∀ (rule : Rule) (error : RuleError), rule.check = .error error →
      error = .invalidCondition rule.text ∧
      error.message = "invalid condition: " ++ rule.text ∧
      ∀ (r : Report) (redact : Bool), rule.passes r.probe = false ∧
        r.evaluate rule redact = { r with
          outcomes := r.outcomes ++ [⟨rule.body, false, rule.severity⟩]
          errors := r.errors ++ [error.message] }) ∧
    (∀ (config : Config) (e : Endpoint) (r : Report), config.check = .ok () →
      e ∈ config.endpoints →
      ∃ messages, (e.evaluate r).errors = r.errors ++ messages ∧
        ∀ message ∈ messages, ¬ "invalid condition: ".toList <+: message.toList) := by
  refine ⟨?_, ?_, ?_⟩
  · -- a rule that passes its check
    intro rule r redact hcheck
    refine ⟨(rule.evaluate r.probe redact).errors.map RuleError.message, rfl, ?_⟩
    intro message hmessage
    obtain ⟨error, herror, rfl⟩ := List.mem_map.mp hmessage
    exact Rule.message_of_check hcheck herror
  · -- a rule that is refused
    intro rule error hcheck
    -- what is refused has no condition, and this is all that its evaluation looks at
    obtain ⟨hnone, rfl⟩ := Rule.check_eq_error_iff.mp hcheck
    refine ⟨rfl, rfl, ?_⟩
    intro r redact
    refine ⟨Rule.passes_of_none hnone r.probe, ?_⟩
    rw [Report.evaluate_eq_add, Rule.evaluate_of_none hnone]
    rfl
  · -- an endpoint of a configuration that passes
    intro config e r hcheck he
    have hendpoint : e.check = .ok () := (check_eq_ok_iff.mp hcheck).1 e he
    rw [Endpoint.evaluate_eq]
    exact ⟨_, rfl, fun message => Endpoint.message_of_check hendpoint⟩

/-- A rule without an operator is refused and reported in the same words; a rule that is accepted
and finds no value is not reported so. -/
theorem Config.check_agrees_no_operator :
    Rule.check ⟨"High :: [STATUS] ? 200"⟩ = .error (.invalidCondition "High :: [STATUS] ? 200") ∧
    (Report.fresh Probe.empty .epoch).evaluate ⟨"High :: [STATUS] ? 200"⟩ false =
      { Report.fresh Probe.empty .epoch with
        outcomes := [⟨"[STATUS] ? 200", false, .high⟩]
        errors := ["invalid condition: High :: [STATUS] ? 200"] } ∧
    Config.check ⟨[⟨"api", "", "", [⟨"[BODY].a == 1"⟩], false⟩]⟩ = .ok () ∧
    ∀ message ∈ (Endpoint.evaluate ⟨"api", "", "", [⟨"[BODY].a == 1"⟩], false⟩
        (Report.fresh Probe.empty .epoch)).errors,
      ¬ "invalid condition: ".toList <+: message.toList := by
  have hrefused : Rule.check ⟨"High :: [STATUS] ? 200"⟩ =
      .error (.invalidCondition "High :: [STATUS] ? 200") := by
    decide +kernel
  have haccepted : Config.check ⟨[⟨"api", "", "", [⟨"[BODY].a == 1"⟩], false⟩]⟩ = .ok () := by
    decide +kernel
  have hbody : Rule.body ⟨"High :: [STATUS] ? 200"⟩ = "[STATUS] ? 200" := by decide +kernel
  have hseverity : Rule.severity ⟨"High :: [STATUS] ? 200"⟩ = .high := by decide +kernel
  obtain ⟨-, -, hrun⟩ := check_agrees.2.1 ⟨"High :: [STATUS] ? 200"⟩ _ hrefused
  obtain ⟨messages, herrors, hnone⟩ := check_agrees.2.2 _ _ (Report.fresh Probe.empty .epoch)
    haccepted List.mem_cons_self
  refine ⟨hrefused, ?_, haccepted, ?_⟩
  · rw [(hrun (Report.fresh Probe.empty .epoch) false).2, hbody, hseverity]
    rfl
  · rw [herrors]
    exact hnone

end HealthRules
