import Mathlib
import HealthRules.Proofs.Evaluation.Report
import HealthRules.Proofs.Evaluation.Worst

/-!
# Endpoints part by part

The rules of an endpoint do not see each other. So an endpoint with the rules of two others records
what these two record, one behind the other; the order of its rules only orders its outcomes, and
one more rule makes its verdict no better (`Endpoint.evaluate_compositional`).

The verdict is read off the outcomes of a report, so all of this is about reports that hold none
before: there the severity is the worst one of the endpoint's own outcomes
(`Endpoint.severity_withRules`).
-/

namespace HealthRules

namespace Endpoint

/-- The endpoint with other rules. -/
def withRules (e : Endpoint) (rules : List Rule) : Endpoint :=
  { e with rules := rules }

/-! ## What an endpoint records -/

/-- The outcome of one rule, as an endpoint with this setting records it. -/
def outcomeOf (e : Endpoint) (p : Probe) (rule : Rule) : Outcome :=
  (rule.evaluate p e.redact).outcome

/-- The messages of one rule. -/
def messagesOf (e : Endpoint) (p : Probe) (rule : Rule) : List String :=
  (rule.evaluate p e.redact).errors.map RuleError.message

section
variable (e : Endpoint) (rules : List Rule) (r : Report)

theorem outcomes_withRules : ((e.withRules rules).evaluate r).outcomes =
    r.outcomes ++ rules.map (e.outcomeOf r.probe) := by
  rw [evaluate_eq, evaluations, List.map_map]
  rfl

theorem errors_withRules : ((e.withRules rules).evaluate r).errors =
    r.errors ++ rules.flatMap (e.messagesOf r.probe) := by
  rw [evaluate_eq, evaluations, List.flatMap_map]
  rfl

theorem success_withRules : ((e.withRules rules).evaluate r).success =
    Outcome.allPassed (rules.map (e.outcomeOf r.probe)) := by
  simp only [evaluate_eq, evaluations, withRules, Outcome.allPassed, List.all_map,
    Function.comp_def, outcomeOf]

end

/-- On a report without outcomes the severity is that of the endpoint's own rules. -/
theorem severity_withRules (e : Endpoint) (rules : List Rule) {r : Report} (h : r.outcomes = []) :
    ((e.withRules rules).evaluate r).severity =
      Outcome.worst (rules.map (e.outcomeOf r.probe)) := by
  rw [severity_evaluate_eq, Report.worst, outcomes_withRules, h, List.nil_append]

/-! ## Rules in another order -/

/-- The outcome of a rule is found where the rule stands. -/
theorem getElem?_outcomes_withRules (e : Endpoint) (rules : List Rule) {r : Report}
    (h : r.outcomes = []) (i : Nat) :
    ((e.withRules rules).evaluate r).outcomes[i]? = rules[i]?.map (e.outcomeOf r.probe) := by
  rw [outcomes_withRules, h, List.nil_append, List.getElem?_map]

/-- The verdict depends on which rules there are, not on their order. -/
theorem verdict_withRules_congr (e : Endpoint) {rules rules' : List Rule} {r : Report}
    (h : r.outcomes = []) (hmem : ∀ rule, rule ∈ rules ↔ rule ∈ rules') :
    ((e.withRules rules).evaluate r).success = ((e.withRules rules').evaluate r).success ∧
      ((e.withRules rules).evaluate r).severity = ((e.withRules rules').evaluate r).severity := by
  have houtcomes : ∀ o, o ∈ rules.map (e.outcomeOf r.probe) ↔
      o ∈ rules'.map (e.outcomeOf r.probe) := by
    intro o
    simp only [List.mem_map, hmem]
  constructor
  · rw [success_withRules, success_withRules]
    exact Outcome.allPassed_congr houtcomes
  · rw [severity_withRules e rules h, severity_withRules e rules' h]
    exact Outcome.worst_congr houtcomes

/-- An endpoint is the sum of its parts. On a report without outcomes, rules in two groups append
what each group appends alone, pass if both do, and have the worse of the two severities. Rules in
another order have their outcomes in that order, and the same verdict. One more rule, wherever it
stands, never makes a failure a success, nor a severity less bad. -/
theorem evaluate_compositional (e : Endpoint) {r : Report} (h : r.outcomes = []) :
    (∀ rules rules' : List Rule,
      let first := (e.withRules rules).evaluate r
      let second := (e.withRules rules').evaluate r
      let both := (e.withRules (rules ++ rules')).evaluate r
      both.outcomes = first.outcomes ++ second.outcomes ∧
      (∃ messages messages', first.errors = r.errors ++ messages ∧
        second.errors = r.errors ++ messages' ∧
        both.errors = r.errors ++ messages ++ messages') ∧
      both.success = (first.success && second.success) ∧
      both.severity = max first.severity second.severity) ∧
    (∀ (rules : List Rule) (σ : Equiv.Perm (Fin rules.length)),
      let given := (e.withRules rules).evaluate r
      let shuffled := (e.withRules (List.ofFn fun i => rules[σ i])).evaluate r
      shuffled.outcomes.length = rules.length ∧
      (∀ i : Fin rules.length, shuffled.outcomes[i.val]? = given.outcomes[(σ i).val]?) ∧
      shuffled.success = given.success ∧ shuffled.severity = given.severity) ∧
    (∀ (front back : List Rule) (rule : Rule),
      let without := (e.withRules (front ++ back)).evaluate r
      let added := (e.withRules (front ++ rule :: back)).evaluate r
      (without.success = false → added.success = false) ∧
      without.severity.code ≤ added.severity.code) := by
  refine ⟨?_, ?_, ?_⟩
  · -- rules in two groups
    intro rules rules'
    dsimp only
    refine ⟨?_, ⟨_, _, e.errors_withRules rules r, e.errors_withRules rules' r, ?_⟩, ?_, ?_⟩
    · simp only [outcomes_withRules, h, List.nil_append, List.map_append]
    · rw [errors_withRules, List.flatMap_append, List.append_assoc]
    · simp only [success_withRules, List.map_append, Outcome.allPassed_append]
    · simp only [severity_withRules _ _ h, List.map_append, Outcome.worst_append]
  · -- rules in another order
    intro rules σ
    dsimp only
    refine ⟨?_, ?_, verdict_withRules_congr e h ?_⟩
    · rw [outcomes_withRules, h, List.nil_append, List.length_map, List.length_ofFn]
    · intro i
      rw [getElem?_outcomes_withRules e _ h, getElem?_outcomes_withRules e _ h]
      simp
    · -- a shuffled list has the same rules, and the verdict sees no more of it
      have hgiven : (List.ofFn fun i : Fin rules.length => rules[i]) = rules := List.ofFn_getElem
      have hperm := σ.ofFn_comp_perm fun i : Fin rules.length => rules[i]
      rw [hgiven] at hperm
      exact fun rule => hperm.mem_iff
  · -- one more rule
    intro front back rule
    dsimp only
    -- the rules without the new one are among those with it
    have hsubset : front ++ back ⊆ front ++ rule :: back :=
      ((List.sublist_cons_self rule back).append_left front).subset
    have houtcomes := List.map_subset (e.outcomeOf r.probe) hsubset
    constructor
    · rw [success_withRules, success_withRules]
      intro hfail
      rw [← Bool.not_eq_true] at hfail ⊢
      exact fun hall => hfail (Outcome.allPassed_of_subset houtcomes hall)
    · rw [severity_withRules e _ h, severity_withRules e _ h]
      exact Outcome.code_worst_le_of_subset houtcomes

/-- A rule that passes, a malformed one and one that fails, on a report that holds an error: the
first rule apart from the others, and the last two exchanged. -/
theorem evaluate_compositional_malformed :
    let e : Endpoint := ⟨"api", "core", "", [], false⟩
    let r := (Report.fresh Probe.empty .epoch).addError "timeout"
    let rules : List Rule := [⟨"[STATUS] == 0"⟩, ⟨"High :: [STATUS]"⟩, ⟨"Low :: [STATUS] > 0"⟩]
    let given := (e.withRules rules).evaluate r
    let first := (e.withRules (rules.take 1)).evaluate r
    let second := (e.withRules (rules.drop 1)).evaluate r
    let shuffled := (e.withRules (List.ofFn fun i => rules[Equiv.swap 1 2 i])).evaluate r
    r.outcomes = [] ∧ second.severity = .high ∧
      given.outcomes = first.outcomes ++ second.outcomes ∧
      given.severity = max first.severity second.severity ∧
      shuffled.outcomes[1]? = given.outcomes[2]? ∧ shuffled.severity = given.severity := by
  intro e r rules given first second shuffled
  have hnone : r.outcomes = [] := rfl
  have hhigh : second.severity = .high := by decide +kernel
  obtain ⟨hsplit, hreorder, -⟩ := evaluate_compositional e hnone
  obtain ⟨houtcomes, -, -, hseverity⟩ := hsplit (rules.take 1) (rules.drop 1)
  obtain ⟨-, hplaces, -, hsame⟩ := hreorder rules (Equiv.swap 1 2)
  exact ⟨hnone, hhigh, houtcomes, hseverity, hplaces 1, hsame⟩

end Endpoint
end HealthRules
