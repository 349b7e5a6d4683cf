import Mathlib
import HealthRules.Severity

/-!
# Severities and their marks

Severities are ordered by their codes, and `Severity.max` is the greater of two in this order.

A severity stands in front of a rule as its name and two colons. What `Severity.split` takes off
is known from the text alone: either a mark stands in front, or none does and the text is left as it
is (`Severity.split_cases`). No mark starts another one, so the order in which the marks are tried
does not matter, and one mark is taken off whatever stands behind it (`Severity.split_mark`).
-/

namespace HealthRules.Severity

/-! ## The order of severities -/

/-- The maximum has the greater one of two codes. -/
theorem code_max (a b : Severity) : (Max.max a b).code = Max.max a.code b.code := by
  cases a <;> cases b <;> rfl

/-- Severities are told apart by their codes. -/
theorem code_injective {a b : Severity} (h : a.code = b.code) : a = b := by
  have hread := ofCode?_code a
  rwa [h, ofCode?_code, Option.some.injEq, eq_comm] at hread

theorem code_eq_zero_iff {s : Severity} : s.code = 0 ↔ s = .none :=
  ⟨fun h => code_injective h, fun h => h ▸ rfl⟩

/-- The maximum of two severities is one of them. -/
theorem max_eq_or (a b : Severity) : Max.max a b = a ∨ Max.max a b = b := by
  rcases Nat.le_total a.code b.code with h | h
  · right
    exact code_injective ((code_max a b).trans (Nat.max_eq_right h))
  · left
    exact code_injective ((code_max a b).trans (Nat.max_eq_left h))

instance : Std.Associative (α := Severity) Max.max where
  assoc a b c := code_injective (by simp only [code_max, Nat.max_assoc])

theorem max_none (s : Severity) : Max.max s .none = s := by
  cases s <;> rfl

theorem none_max (s : Severity) : Max.max .none s = s := by
  cases s <;> rfl

/-! ## The mark in front of a text -/

/-- A text cannot say that a failure is none. -/
theorem ne_none_of_mem_marks {s : Severity} (h : s ∈ marks) : s ≠ none := by
  intro hnone
  rw [hnone] at h
  exact absurd h (by decide)

/-- Of two marks neither starts the other. -/
theorem marks_prefix_free {s s' : Severity} (hs : s ∈ marks) (hs' : s' ∈ marks)
    (h : s.mark <+: s'.mark) : s = s' := by
  have hfree : ∀ s ∈ marks, ∀ s' ∈ marks, s.mark <+: s'.mark → s = s' := by decide
  exact hfree s hs s' hs' h

/-- A rule starts with the mark of its severity, or it starts with no mark and is critical. -/
theorem split_cases (rule : List Char) :
    ((split rule).1 ∈ marks ∧ rule = (split rule).1.mark ++ (split rule).2) ∨
      ((∀ s ∈ marks, ¬ s.mark <+: rule) ∧ split rule = (critical, rule)) := by
  unfold split
  cases hfind : marks.findSome? fun s => (Text.after? s.mark rule).map fun rest => (s, rest) with
  | none =>
    right
    refine ⟨?_, rfl⟩
    -- a mark in front would have been found
    intro s hs ⟨rest, hrest⟩
    have hafter : Text.after? s.mark rule = some rest := Text.after?_eq_some_iff.mpr hrest.symm
    have hnone := List.findSome?_eq_none_iff.mp hfind s hs
    rw [hafter] at hnone
    exact absurd hnone (by simp)
  | some found =>
    left
    obtain ⟨s, hs, hfound⟩ := List.exists_of_findSome?_eq_some hfind
    obtain ⟨rest, hrest, rfl⟩ := Option.map_eq_some_iff.mp hfound
    exact ⟨hs, Text.after?_eq_some_iff.mp hrest⟩

/-- Taking off the severity leaves the end of a rule. -/
theorem split_suffix (rule : List Char) : (split rule).2 <:+ rule := by
  rcases split_cases rule with ⟨-, hmark⟩ | ⟨-, hsplit⟩
  · exact ⟨(split rule).1.mark, hmark.symm⟩
  · rw [hsplit]

/-- One mark is taken off, even if another one stands behind it. -/
theorem split_mark {s : Severity} (hs : s ∈ marks) (rest : List Char) :
    split (s.mark ++ rest) = (s, rest) := by
  rcases split_cases (s.mark ++ rest) with ⟨hmem, hsplit⟩ | ⟨hno, -⟩
  · have hfirst : (split (s.mark ++ rest)).1 = s := by
      -- the mark that was found and the one in front start the same text
      rcases List.prefix_or_prefix_of_prefix ⟨_, hsplit.symm⟩ (List.prefix_append s.mark rest)
        with h | h
      · exact marks_prefix_free hmem hs h
      · exact (marks_prefix_free hs hmem h).symm
    rw [hfirst] at hsplit
    exact Prod.ext hfirst (List.append_cancel_left hsplit).symm
  · exact absurd (List.prefix_append s.mark rest) (hno s hs)

/-- A text without a mark in front is left as it is. -/
theorem split_of_no_mark {cs : List Char} (h : ∀ s ∈ marks, ¬ s.mark <+: cs) :
    split cs = (critical, cs) := by
  rcases split_cases cs with ⟨hmem, hsplit⟩ | ⟨-, hsplit⟩
  · exact absurd ⟨_, hsplit.symm⟩ (h _ hmem)
  · exact hsplit

/-- The name of a severity and two colons in front of a text are its mark. -/
theorem toList_mark_append (s : Severity) (t : String) :
    (s.name ++ " :: " ++ t).toList = s.mark ++ t.toList := by
  rw [String.toList_append, String.toList_append]
  rfl

end HealthRules.Severity
