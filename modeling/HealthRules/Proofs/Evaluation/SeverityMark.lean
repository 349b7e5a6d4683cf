import Mathlib
import HealthRules.Proofs.Evaluation.Record

/-!
# The mark in front of a rule

The mark decides how bad a failure is, and nothing else: `Rule.Regrades` says what a rule with a
mark has in common with the rule without it. One mark is taken off and no more
(`Severity.split_mark`), so this holds of every text that does not begin with a mark itself.
-/

namespace HealthRules

/-! ## Rules with a mark and rules without -/

namespace Rule

/-- Two rules that differ in how bad their failures are. -/
structure Regrades (marked plain : Rule) (s s' : Severity) : Prop where
  check_iff : marked.check = .ok () ↔ plain.check = .ok ()
  success (p : Probe) (redact : Bool) :
    (marked.evaluate p redact).outcome.success = (plain.evaluate p redact).outcome.success
  condition (p : Probe) (redact : Bool) :
    (marked.evaluate p redact).outcome.condition = (plain.evaluate p redact).outcome.condition
  /-- Errors about a malformed rule show the text with the mark. -/
  errors (hplain : plain.check = .ok ()) (p : Probe) (redact : Bool) :
    (marked.evaluate p redact).errors = (plain.evaluate p redact).errors
  severity (p : Probe) (redact : Bool) (hfail : (plain.evaluate p redact).outcome.success = false) :
    (marked.evaluate p redact).outcome.severity = s ∧
      (plain.evaluate p redact).outcome.severity = s'

/-- Rules with the same text behind their marks differ in how bad their failures are. -/
theorem regrades_of_body {r r' : Rule} (h : r.body = r'.body) :
    r.Regrades r' r.severity r'.severity where
  check_iff := by
    rw [check_eq_ok_iff, check_eq_ok_iff, h]
  success p redact := by
    rw [success_evaluate, success_evaluate, passes, passes, h]
  condition p redact := by
    cases hc : Condition.ofText? r'.body with
    | none =>
      rw [evaluate_of_none hc, evaluate_of_none (h ▸ hc)]
      exact h
    | some c => rw [evaluate_of_some hc, evaluate_of_some (h ▸ hc), h]
  errors hplain p redact := by
    obtain ⟨c, hc⟩ := check_eq_ok_iff.mp hplain
    rw [evaluate_of_some hc, evaluate_of_some (h ▸ hc), h]
  severity p redact hfail := by
    have hpasses : r'.passes p = false := by
      rw [← success_evaluate]
      exact hfail
    have hpasses' : r.passes p = false := by
      rw [passes, h]
      exact hpasses
    rw [severity_evaluate, severity_evaluate, hpasses, hpasses']
    exact ⟨rfl, rfl⟩

/-- The name of a severity in front of a text without a mark changes how bad a failure of the rule
is, and nothing else. Every text has one reading: as a mark and a text behind it, or as a critical
rule without a mark. -/
theorem severity_mark :
    (∀ s ∈ Severity.marks, ∀ t : String, (∀ s' ∈ Severity.marks, ¬ s'.mark <+: t.toList) →
      Regrades ⟨s.name ++ " :: " ++ t⟩ ⟨t⟩ s .critical) ∧
    ∀ raw : String,
      (∃ s ∈ Severity.marks, ∃ rest : String, raw = s.name ++ " :: " ++ rest ∧
        Severity.split raw.toList = (s, rest.toList)) ∨
      ((∀ s ∈ Severity.marks, ¬ s.mark <+: raw.toList) ∧
        Severity.split raw.toList = (.critical, raw.toList)) := by
  constructor
  · -- a mark in front of a text without one
    intro s hs t ht
    have hmarked : Severity.split (s.name ++ " :: " ++ t).toList = (s, t.toList) := by
      rw [Severity.toList_mark_append]
      exact Severity.split_mark hs t.toList
    have hplain : Severity.split t.toList = (.critical, t.toList) := Severity.split_of_no_mark ht
    -- both texts leave the same rule behind, and only the severity in front differs
    have hbody : body ⟨s.name ++ " :: " ++ t⟩ = body ⟨t⟩ := by
      rw [body, body, hmarked, hplain]
    have hseverity : severity ⟨s.name ++ " :: " ++ t⟩ = s := by
      rw [severity, hmarked]
    have hcritical : severity ⟨t⟩ = .critical := by
      rw [severity, hplain]
    have h := regrades_of_body hbody
    rw [hseverity, hcritical] at h
    exact h
  · -- any text at all
    intro raw
    rcases Severity.split_cases raw.toList with ⟨hmem, hsplit⟩ | hno
    · refine .inl ⟨_, hmem, String.ofList (Severity.split raw.toList).2, ?_, ?_⟩
      · rw [← String.toList_inj, Severity.toList_mark_append, String.toList_ofList]
        exact hsplit
      · rw [String.toList_ofList]
    · exact .inr hno

/-- A word that is no mark is part of the left operand, with a mark in front and without. -/
theorem severity_mark_failure :
    let t := "Highest :: [STATUS] == 200"
    Regrades ⟨Severity.low.name ++ " :: " ++ t⟩ ⟨t⟩ .low .critical ∧
      (evaluate ⟨Severity.low.name ++ " :: " ++ t⟩ Probe.empty false).outcome.severity = .low := by
  intro t
  have hmarks : ∀ s ∈ Severity.marks, ¬ s.mark <+: t.toList := by decide
  have hregrades := severity_mark.1 .low (by decide) t hmarks
  have hfail : (evaluate ⟨t⟩ Probe.empty false).outcome.success = false := by decide +kernel
  exact ⟨hregrades, (hregrades.severity Probe.empty false hfail).1⟩

end Rule
end HealthRules
