import Mathlib
import HealthRules.Proofs.Grammar.Condition
import HealthRules.Proofs.Text.Insertion
import HealthRules.Rule

/-!
# The text of an outcome

A rule that failed is shown with the values that its operands had, each right behind its operand
(`Rule.evaluate_condition_text`); a rule that passed, or whose values are to be kept back, is shown
as it was written.

Values are put in by searching the text, and an operand may also occur in the other operand or in
the operator. The search finds the right place whenever there is a value to put in: the left
operand stands at the very start, and behind it an operand with a value starts with a character
that no operator holds (`Meaning.Written.head_not_mem_spaced`).
-/

namespace HealthRules

/-! ## Where operands with a value start -/

/-- An operand that has its value from a probe starts with a character that no operator holds. -/
theorem Meaning.Written.head_not_mem_spaced {cs : List Char} {m : Meaning}
    (h : Meaning.Written cs m) (hread : m.isRead = true) (op : Operator) :
    ∃ c rest, cs = c :: rest ∧ c ∉ op.spaced := by
  obtain ⟨f, hf⟩ := isRead_iff.mp hread
  obtain ⟨token, hw, hcs⟩ := h.exists_token hf
  -- no symbol of an operator has a bracket or a letter
  rcases hcs with rfl | rfl | rfl
  · obtain ⟨rest, hrest⟩ := List.head?_eq_some_iff.mp hw.head
    refine ⟨'[', rest, hrest, ?_⟩
    cases op <;> decide
  · refine ⟨'l', "en".toList ++ '(' :: (token ++ [')']), rfl, ?_⟩
    cases op <;> decide
  · refine ⟨'h', "as".toList ++ '(' :: (token ++ [')']), rfl, ?_⟩
    cases op <;> decide

/-! ## The explanation of a failure -/

namespace Operand

/-- What stands behind an operand when a failure is explained: nothing if it has no value of the
probe, else the value that it was compared as. -/
def annotation (o : Operand) (p : Probe) : String :=
  match o.meaning, (o.comparand p).1 with
  | .anyOf _, _ | .pattern _, _ | .literal _, _ => ""
  | _, .value (some v) => " (" ++ v.text ++ ")"
  | _, _ => " (INVALID)"

/-- An operand that has its value from a probe is compared as a value, perhaps a missing one. -/
theorem comparand_of_isRead {o : Operand} (h : o.isRead = true) (p : Probe) :
    ∃ v, (o.comparand p).1 = .value v := by
  obtain ⟨text, meaning⟩ := o
  unfold comparand
  cases meaning with
  | field f =>
    cases hf : f.resolve? p with
    | ok v => exact ⟨some v, by simp only [hf]⟩
    | error fault => exact ⟨none, by simp only [hf]⟩
  | length f =>
    cases hf : f.lengthOf? text p with
    | ok v => exact ⟨some v, by simp only [hf]⟩
    | error e => exact ⟨none, by simp only [hf]⟩
  | presence f => exact ⟨some (f.presenceOf p), rfl⟩
  | anyOf options | pattern glob | literal text =>
    exact absurd h (by simp [isRead, Meaning.isRead])

theorem shownValue_of_not_isRead {o : Operand} (h : o.isRead = false) (c : Comparand) :
    o.shownValue c = none := by
  unfold shownValue
  rw [h]
  rfl

theorem annotation_of_not_isRead {o : Operand} (h : o.isRead = false) (p : Probe) :
    o.annotation p = "" := by
  obtain ⟨text, meaning⟩ := o
  cases meaning with
  | field f | length f | presence f => exact absurd h (by simp [isRead, Meaning.isRead])
  | anyOf options | pattern glob | literal text => rfl

theorem annotation_of_isRead {o : Operand} (h : o.isRead = true) {p : Probe} {v : Option Value}
    (hv : (o.comparand p).1 = .value v) :
    o.annotation p = " (" ++ (v.map Value.text).getD "INVALID" ++ ")" := by
  obtain ⟨text, meaning⟩ := o
  unfold annotation
  rw [hv]
  cases meaning with
  | field f | length f | presence f => cases v <;> rfl
  | anyOf options | pattern glob | literal text =>
    exact absurd h (by simp [isRead, Meaning.isRead])

/-- What is put behind an operand is its annotation. -/
theorem shown_shownValue (o : Operand) (p : Probe) :
    Explanation.shown (o.shownValue (o.comparand p).1) = (o.annotation p).toList := by
  cases hread : o.isRead with
  | false =>
    rw [shownValue_of_not_isRead hread, annotation_of_not_isRead hread]
    rfl
  | true =>
    obtain ⟨v, hv⟩ := comparand_of_isRead hread p
    rw [annotation_of_isRead hread hv, hv]
    unfold shownValue
    rw [if_pos hread]
    cases v with
    | none => rfl
    | some v =>
      simp only [Explanation.shown, Option.map_some, Option.getD_some, String.toList_append]
      rfl

end Operand

namespace Condition

/-- In the text of a well-formed condition the values stand right behind their operands. -/
theorem insertValues_text {c : Condition} (h : c.WellFormed) (p : Probe) :
    Explanation.insertValues [(c.left.text, c.left.shownValue (c.left.comparand p).1),
        (c.right.text, c.right.shownValue (c.right.comparand p).1)] c.text.toList =
      c.left.text.toList ++ (c.left.annotation p).toList ++
        (c.operator.spaced ++ c.right.text.toList ++ (c.right.annotation p).toList) := by
  rw [toList_text, Explanation.insertValues_cons, Operand.shown_shownValue]
  congr 1
  cases hread : c.right.isRead with
  | false =>
    -- then it does not matter where the right operand is found
    rw [Explanation.insertValues_of_none, Operand.annotation_of_not_isRead hread]
    · exact (List.append_nil _).symm
    · intro pair hpair
      rw [List.mem_singleton.mp hpair]
      exact Operand.shownValue_of_not_isRead hread _
  | true =>
    -- it cannot start inside the operator, so the search finds it at the end
    obtain ⟨first, rest, htext, hfirst⟩ := h.rightWritten.head_not_mem_spaced hread c.operator
    rw [Explanation.insertValues_end htext hfirst, Operand.shown_shownValue]

/-- Whether a condition passes, whatever is to be shown. -/
theorem evaluate_fst_iff (c : Condition) (text : String) (p : Probe) (redact : Bool) :
    (c.evaluate text p redact).1 = true ↔
      compareOperands (c.left.comparand p).1 (c.right.comparand p).1 c.operator = .ok true := by
  unfold evaluate
  cases hcompare : compareOperands (c.left.comparand p).1 (c.right.comparand p).1 c.operator with
  | ok success => simp only [hcompare, Except.ok.injEq]
  | error m => simp only [hcompare, Bool.false_eq_true, reduceCtorEq]

/-- The text of an outcome is an explanation with the values of both operands. -/
theorem evaluate_text (c : Condition) (text : String) (p : Probe) (redact : Bool) :
    (c.evaluate text p redact).2.1 = Explanation.explain text
      [(c.left.text, c.left.shownValue (c.left.comparand p).1),
        (c.right.text, c.right.shownValue (c.right.comparand p).1)]
      (c.evaluate text p redact).1 redact := rfl

/-- A condition that passed, or whose values are kept back, is shown as it was written. -/
theorem evaluate_text_eq_self {c : Condition} {text : String} {p : Probe} {redact : Bool}
    (h : (c.evaluate text p redact).1 = true ∨ redact = true) :
    (c.evaluate text p redact).2.1 = text := by
  have hplain : ((c.evaluate text p redact).1 || redact) = true := by
    rw [Bool.or_eq_true]
    exact h
  rw [evaluate_text, Explanation.explain, if_pos hplain]

/-- A condition that failed is shown with the values right behind its operands. -/
theorem evaluate_text_of_failure {c : Condition} (h : c.WellFormed) {p : Probe}
    (hfail : (c.evaluate c.text p false).1 = false) :
    (c.evaluate c.text p false).2.1 =
      c.left.text ++ c.left.annotation p ++ (" " ++ c.operator.symbol ++ " ") ++
        c.right.text ++ c.right.annotation p := by
  have hvalues : ¬ ((c.evaluate c.text p false).1 || false) = true := by
    rw [hfail]
    decide
  rw [evaluate_text, Explanation.explain, if_neg hvalues, insertValues_text h,
    ← Operator.ofList_spaced, ← String.toList_inj]
  simp only [String.toList_ofList, String.toList_append, List.append_assoc]

end Condition

namespace Rule

theorem check_eq_ok_iff {r : Rule} :
    r.check = .ok () ↔ ∃ c, Condition.ofText? r.body = some c := by
  unfold check
  cases Condition.ofText? r.body with
  | none => simp
  | some c => simp

theorem evaluate_of_some {r : Rule} {c : Condition} (h : Condition.ofText? r.body = some c)
    (p : Probe) (redact : Bool) :
    r.evaluate p redact = ⟨⟨(c.evaluate r.body p redact).2.1, (c.evaluate r.body p redact).1,
      if (c.evaluate r.body p redact).1 then .none else r.severity⟩,
      (c.evaluate r.body p redact).2.2⟩ := by
  unfold evaluate
  rw [h]

theorem evaluate_of_none {r : Rule} (h : Condition.ofText? r.body = none) (p : Probe)
    (redact : Bool) :
    r.evaluate p redact = ⟨⟨r.body, false, r.severity⟩, [.invalidCondition r.text]⟩ := by
  unfold evaluate
  rw [h]

/-- A rule whose values are kept back is shown as its text without the severity. -/
theorem condition_of_redact (r : Rule) (p : Probe) :
    (r.evaluate p true).outcome.condition = r.body := by
  cases hc : Condition.ofText? r.body with
  | none => rw [evaluate_of_none hc]
  | some c =>
    rw [evaluate_of_some hc]
    exact Condition.evaluate_text_eq_self (.inr rfl)

/-- Keeping values back changes the text of an outcome only. -/
theorem evaluate_redact (r : Rule) (p : Probe) :
    (r.evaluate p true).outcome.success = (r.evaluate p false).outcome.success ∧
      (r.evaluate p true).outcome.severity = (r.evaluate p false).outcome.severity ∧
      (r.evaluate p true).errors = (r.evaluate p false).errors := by
  cases hc : Condition.ofText? r.body with
  | none =>
    rw [evaluate_of_none hc, evaluate_of_none hc]
    exact ⟨rfl, rfl, rfl⟩
  | some c =>
    rw [evaluate_of_some hc, evaluate_of_some hc]
    exact ⟨rfl, rfl, rfl⟩

/-- What an outcome shows. If the rule is well formed, then a failure whose values may be shown is
shown as the left operand, its annotation, the operator with its spaces, the right operand and its
annotation; a rule that passed or whose values are kept back is shown as its text without the
severity. Keeping values back changes nothing else, and then the text does not depend on the
probe. -/
theorem evaluate_condition_text (r : Rule) (p : Probe) (redact : Bool) :
    (r.check = .ok () → ∃ c, Condition.ofText? r.body = some c ∧
      ((r.evaluate p redact).outcome.success = true ↔
        compareOperands (c.left.comparand p).1 (c.right.comparand p).1 c.operator = .ok true) ∧
      ((r.evaluate p redact).outcome.success = false → redact = false →
        (r.evaluate p redact).outcome.condition =
          c.left.text ++ c.left.annotation p ++ (" " ++ c.operator.symbol ++ " ") ++
            c.right.text ++ c.right.annotation p) ∧
      ((r.evaluate p redact).outcome.success = true ∨ redact = true →
        (r.evaluate p redact).outcome.condition = r.body)) ∧
    ((r.evaluate p true).outcome.success = (r.evaluate p false).outcome.success ∧
      (r.evaluate p true).outcome.severity = (r.evaluate p false).outcome.severity ∧
      (r.evaluate p true).errors = (r.evaluate p false).errors) ∧
    ∀ q, (r.evaluate p true).outcome.condition = (r.evaluate q true).outcome.condition := by
  refine ⟨?_, evaluate_redact r p, ?_⟩
  · intro hcheck
    obtain ⟨c, hc⟩ := check_eq_ok_iff.mp hcheck
    obtain ⟨htext, hwell⟩ := Condition.wellFormed_of_ofText? hc
    rw [evaluate_of_some hc]
    -- the text that the rule shows is the text of the condition itself
    refine ⟨c, hc, Condition.evaluate_fst_iff c r.body p redact, ?_,
      Condition.evaluate_text_eq_self⟩
    intro hfail hredact
    rw [hredact] at hfail ⊢
    rw [htext] at hfail ⊢
    exact Condition.evaluate_text_of_failure hwell hfail
  · intro q
    rw [condition_of_redact, condition_of_redact]

/-- A failure whose right operand stands inside its left one: the value follows the right one. -/
theorem evaluate_condition_text_twice :
    check ⟨"Low :: x[STATUS] == [STATUS]"⟩ = .ok () ∧
      (evaluate ⟨"Low :: x[STATUS] == [STATUS]"⟩ Probe.empty false).outcome.success = false ∧
      (evaluate ⟨"Low :: x[STATUS] == [STATUS]"⟩ Probe.empty false).outcome.condition =
        "x[STATUS] == [STATUS] (0)" := by
  have hread : Condition.ofText? (body ⟨"Low :: x[STATUS] == [STATUS]"⟩) =
      some ⟨⟨"x[STATUS]", .literal "x[STATUS]"⟩, .eq, ⟨"[STATUS]", .field .status⟩⟩ := by
    cbv
  have hcheck : check ⟨"Low :: x[STATUS] == [STATUS]"⟩ = .ok () := by
    exact check_eq_ok_iff.mpr ⟨_, hread⟩
  have hfail :
      (evaluate ⟨"Low :: x[STATUS] == [STATUS]"⟩ Probe.empty false).outcome.success = false := by
    decide +kernel
  obtain ⟨c, hc, -, htext, -⟩ :=
    (evaluate_condition_text ⟨"Low :: x[STATUS] == [STATUS]"⟩ Probe.empty false).1 hcheck
  rw [hread, Option.some.injEq] at hc
  refine ⟨hcheck, hfail, ?_⟩
  rw [htext hfail rfl, ← hc]
  decide +kernel

end Rule
end HealthRules
