import Mathlib
import HealthRules.Outcome
import HealthRules.Proofs.Severity

/-!
# The worst severity

The worst severity of a list of outcomes is the largest one of a failure in it: no failure exceeds
it (`Outcome.code_le_worst`), and unless it is none some failure has it (`Outcome.exists_worst`).
If every outcome has a severity exactly when it failed, then there is no worst severity exactly if
everything passed (`Outcome.allPassed_iff`).
-/

namespace HealthRules

/-! ## The worst of a list -/

namespace Outcome

/-- What an outcome adds to the worst severity. -/
def failure (o : Outcome) : Severity :=
  if o.success then .none else o.severity

theorem failure_of_success {o : Outcome} (h : o.success = true) : o.failure = .none :=
  if_pos h

theorem failure_of_failed {o : Outcome} (h : o.success = false) : o.failure = o.severity :=
  if_neg (by rw [h]; exact Bool.false_ne_true)

/-- The worst of two lists together is the worse of the two. -/
theorem worst_append (os ps : List Outcome) : worst (os ++ ps) = max (worst os) (worst ps) := by
  unfold worst
  rw [List.filter_append, List.map_append, List.foldl_append]
  -- the second fold starts from the first result instead of from none
  conv_lhs => rw [← Severity.max_none (List.foldl max .none _)]
  exact List.foldl_assoc

/-- One outcome at a time, the worst is built up from what each of them adds. -/
theorem worst_cons (o : Outcome) (os : List Outcome) :
    worst (o :: os) = max o.failure (worst os) := by
  have hone : worst [o] = o.failure := by
    unfold worst failure
    cases hsuccess : o.success
    · simpa [hsuccess] using Severity.none_max o.severity
    · simp [hsuccess]
  rw [← List.singleton_append, worst_append, hone]

/-- No failure exceeds the worst severity. -/
theorem code_le_worst {o : Outcome} {os : List Outcome} (ho : o ∈ os) (hfail : o.success = false) :
    o.severity.code ≤ (worst os).code := by
  induction os with
  | nil => exact absurd ho List.not_mem_nil
  | cons o' os ih =>
    rw [worst_cons, Severity.code_max]
    rcases List.mem_cons.mp ho with rfl | hmem
    · rw [failure_of_failed hfail]
      exact Nat.le_max_left _ _
    · exact (ih hmem).trans (Nat.le_max_right _ _)

/-- Some failure has the worst severity, unless there is none. -/
theorem exists_worst {os : List Outcome} (h : worst os ≠ .none) :
    ∃ o ∈ os, o.success = false ∧ o.severity = worst os := by
  induction os with
  | nil => exact absurd rfl h
  | cons o os ih =>
    rw [worst_cons] at h ⊢
    -- the worst is what the first outcome adds, or that of the others
    rcases Severity.max_eq_or o.failure (worst os) with hmax | hmax
    · rw [hmax] at h ⊢
      cases hsuccess : o.success with
      | true => exact absurd (failure_of_success hsuccess) h
      | false =>
        exact ⟨o, List.mem_cons_self, hsuccess, (failure_of_failed hsuccess).symm⟩
    · rw [hmax] at h ⊢
      obtain ⟨o', ho', hfail, hsev⟩ := ih h
      exact ⟨o', List.mem_cons_of_mem o ho', hfail, hsev⟩

/-- More outcomes are never less bad. -/
theorem code_worst_le_of_subset {os ps : List Outcome} (h : os ⊆ ps) :
    (worst os).code ≤ (worst ps).code := by
  by_cases hworst : worst os = .none
  · rw [hworst]
    exact Nat.zero_le _
  · obtain ⟨o, ho, hfail, hsev⟩ := exists_worst hworst
    rw [← hsev]
    exact code_le_worst (h ho) hfail

/-- Outcomes that are appended never make the worst severity less bad. -/
theorem code_worst_mono {os ps : List Outcome} (h : os <+: ps) :
    (worst os).code ≤ (worst ps).code :=
  code_worst_le_of_subset h.subset

/-- The worst severity depends on which outcomes there are, not on their order. -/
theorem worst_congr {os ps : List Outcome} (h : ∀ o, o ∈ os ↔ o ∈ ps) : worst os = worst ps := by
  apply Severity.code_injective
  apply Nat.le_antisymm
  · exact code_worst_le_of_subset fun o => (h o).mp
  · exact code_worst_le_of_subset fun o => (h o).mpr

/-! ## Whether everything passed -/

theorem allPassed_append (os ps : List Outcome) :
    allPassed (os ++ ps) = (allPassed os && allPassed ps) :=
  List.all_append

theorem exists_failed {os : List Outcome} (h : allPassed os = false) :
    ∃ o ∈ os, o.success = false := by
  obtain ⟨o, ho, hfail⟩ := List.all_eq_false.mp h
  exact ⟨o, ho, Bool.eq_false_of_not_eq_true hfail⟩

/-- If everything passed, so did any part of it. -/
theorem allPassed_of_subset {os ps : List Outcome} (h : os ⊆ ps) (hall : allPassed ps = true) :
    allPassed os = true :=
  List.all_eq_true.mpr fun o ho => List.all_eq_true.mp hall o (h ho)

theorem allPassed_of_prefix {os ps : List Outcome} (h : os <+: ps) (hall : allPassed ps = true) :
    allPassed os = true :=
  allPassed_of_subset h.subset hall

/-- Whether everything passed depends on which outcomes there are, not on their order. -/
theorem allPassed_congr {os ps : List Outcome} (h : ∀ o, o ∈ os ↔ o ∈ ps) :
    allPassed os = allPassed ps := by
  rw [Bool.eq_iff_iff]
  constructor
  · exact allPassed_of_subset fun o => (h o).mpr
  · exact allPassed_of_subset fun o => (h o).mp

/-- An outcome has no severity exactly if it is a success. -/
def Graded (o : Outcome) : Prop :=
  o.severity = .none ↔ o.success = true

/-- If a severity goes with each failure and with no success, then everything passed exactly if
there is no worst severity. -/
theorem allPassed_iff {os : List Outcome} (h : ∀ o ∈ os, o.Graded) :
    allPassed os = true ↔ worst os = .none := by
  constructor
  · intro hall
    by_contra hworst
    obtain ⟨o, ho, hfail, -⟩ := exists_worst hworst
    have hsuccess := List.all_eq_true.mp hall o ho
    rw [hfail] at hsuccess
    exact absurd hsuccess (by decide)
  · intro hworst
    by_contra hall
    obtain ⟨o, ho, hfail⟩ := exists_failed (Bool.eq_false_of_not_eq_true hall)
    -- a failure has a severity, and the worst one is at least as bad
    have hcode := code_le_worst ho hfail
    rw [hworst] at hcode
    have hnone : o.severity = .none := Severity.code_eq_zero_iff.mp (Nat.le_zero.mp hcode)
    have hsuccess := (h o ho).mp hnone
    rw [hfail] at hsuccess
    exact absurd hsuccess (by decide)

end Outcome
end HealthRules
