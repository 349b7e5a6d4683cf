import Mathlib
import HealthRules.Proofs.Comparison.Operators
import HealthRules.Proofs.Evaluation.Explanation
import HealthRules.Proofs.Evaluation.Message
import HealthRules.Proofs.Evaluation.Report
import HealthRules.Proofs.Severity

/-!
# What an evaluation records

Evaluating a rule answers whether it passed, and appends one outcome and at most two errors to a
report. All of this depends on the rule and the probe alone (`Report.evaluate_record`).

Three places can give an error: the reading of the rule, the value of either operand, and the
comparison. `Rule.Errors` says how they go together: an error of the reading stands alone, errors
of the operands stand in their order, and the comparison has an error only if both operands have a
value (`Rule.errors_evaluate`).
-/

namespace HealthRules

namespace Rule

/-- The severity of a rule is the one whose mark stands in front, or critical if none does. -/
theorem severity_cases (r : Rule) :
    (r.severity ∈ Severity.marks ∧ r.text.toList = r.severity.mark ++ r.body.toList) ∨
      ((∀ s ∈ Severity.marks, ¬ s.mark <+: r.text.toList) ∧ r.severity = .critical ∧
        r.body = r.text) := by
  unfold severity body
  rw [String.toList_ofList]
  rcases Severity.split_cases r.text.toList with hmark | ⟨hno, hsplit⟩
  · exact .inl hmark
  · rw [hsplit, String.ofList_toList]
    exact .inr ⟨hno, rfl, rfl⟩

/-- A condition without a space in its left operand is no rule with a severity mark: behind the
first space of a mark stands a colon, and no operator starts with one. -/
theorem body_text {c : Condition} (h : ' ' ∉ c.left.text.toList) : body ⟨c.text⟩ = c.text := by
  rcases (Rule.mk c.text).severity_cases with ⟨hmark, htext⟩ | ⟨-, -, hbody⟩
  · have hname : ∀ s ∈ Severity.marks, ' ' ∉ s.name.toList := by
      decide
    rw [Condition.toList_text, Operator.spaced_append, Severity.mark, List.append_assoc,
      List.cons_append] at htext
    rcases Text.append_cons_eq_append_cons_of_not_mem h htext with ⟨-, hcolon⟩ | ⟨k, hk, -⟩
    · cases hop : c.operator <;> rw [hop] at hcolon <;> cases hcolon
    · refine absurd ?_ (hname _ hmark)
      rw [hk]
      exact List.mem_append_right _ List.mem_cons_self
  · exact hbody

/-- A rule that is written as two unspaced operands around an operator holds this condition. -/
theorem ofText?_body_unspaced {l r : Operand} (hl : l.Unspaced) (hr : r.Unspaced) (op : Operator)
    (h : op.isOrdering = true → l.meaning.isOrderable = true ∧ r.meaning.isOrderable = true) :
    Condition.ofText? (body ⟨l.text ++ " " ++ op.symbol ++ " " ++ r.text⟩) = some ⟨l, op, r⟩ := by
  have htext := Condition.text_eq ⟨l, op, r⟩
  rw [← htext, body_text hl.noSpace]
  exact Condition.ofText?_unspaced hl hr h

/-- A rule always has a severity to fail with: `none` has no mark, and is not the default. -/
theorem severity_ne_none (r : Rule) : r.severity ≠ .none := by
  rcases r.severity_cases with ⟨hmark, -⟩ | ⟨-, hcritical, -⟩
  · exact Severity.ne_none_of_mem_marks hmark
  · rw [hcritical]
    decide

end Rule

/-! ## The errors of an operand -/

/-- The text of the operand that an error is about. -/
def RuleError.operand? : RuleError → Option String
  | unresolved operand _ => some operand
  | noLength (.badArray operand) => some operand
  | noLength (.wrongKind operand _) => some operand
  | invalidCondition _ | mismatch _ | unknownSeverity _ => none

/-- A value without a length is refused under the name of the operand that asked for it. -/
theorem Value.operand?_of_length?_error {v : Value} {operand : String} {fault : LengthFault}
    (h : v.length? operand = .error fault) :
    (RuleError.noLength fault).operand? = some operand := by
  unfold length? at h
  split at h
  · split at h
    · exact absurd h (by simp)
    · rw [← Except.error.inj h]
      rfl
  · exact absurd h (by simp)
  · exact absurd h (by simp)
  · rw [← Except.error.inj h]
    rfl

/-- So is a field without a length, whether or not it has a value. -/
theorem Field.operand?_of_lengthOf?_error {f : Field} {operand : String} {p : Probe}
    {e : RuleError} (h : f.lengthOf? operand p = .error e) : e.operand? = some operand := by
  unfold lengthOf? at h
  split at h
  · rw [← Except.error.inj h]
    rfl
  · next v _ =>
    cases hlength : v.length? operand with
    | ok n => rw [hlength] at h; exact absurd h (by simp)
    | error fault =>
      rw [hlength] at h
      rw [← Except.error.inj h]
      exact Value.operand?_of_length?_error hlength

namespace Operand

/-- An operand has no error, or it has no value and one error, which names it. -/
theorem comparand_cases (o : Operand) (p : Probe) :
    ((o.comparand p).1 ≠ .value none ∧ (o.comparand p).2 = []) ∨
      ∃ e : RuleError, e.operand? = some o.text ∧ o.comparand p = (.value none, [e]) := by
  obtain ⟨text, meaning⟩ := o
  unfold comparand
  cases meaning with
  | field f =>
    cases hf : f.resolve? p with
    | ok v => exact .inl (by simp [hf])
    | error fault => exact .inr ⟨.unresolved text fault, rfl, by simp only [hf]⟩
  | length f =>
    cases hf : f.lengthOf? text p with
    | ok v => exact .inl (by simp [hf])
    | error e => exact .inr ⟨e, Field.operand?_of_lengthOf?_error hf, by simp only [hf]⟩
  | presence f | anyOf options | pattern glob | literal text => exact .inl ⟨by simp, rfl⟩

theorem errors_eq_nil {o : Operand} {p : Probe} (h : (o.comparand p).1 ≠ .value none) :
    (o.comparand p).2 = [] := by
  rcases o.comparand_cases p with ⟨-, hnil⟩ | ⟨e, -, he⟩
  · exact hnil
  · rw [he] at h
    exact absurd rfl h

theorem errors_eq_nil_of_value {o : Operand} {p : Probe} {v : Value}
    (h : (o.comparand p).1 = .value (some v)) : (o.comparand p).2 = [] :=
  errors_eq_nil (by rw [h]; simp)

/-- An operand has at most one error, so a rule without a mismatch has at most two. -/
theorem length_errors_le_one (o : Operand) (p : Probe) : (o.comparand p).2.length ≤ 1 := by
  rcases o.comparand_cases p with ⟨-, hnil⟩ | ⟨e, -, he⟩
  · rw [hnil]
    exact Nat.zero_le 1
  · rw [he]
    exact Nat.le_refl 1

/-- Every error of an operand names it by the text it was written as. -/
theorem operand?_of_mem_errors {o : Operand} {p : Probe} {e : RuleError}
    (h : e ∈ (o.comparand p).2) : e.operand? = some o.text := by
  rcases o.comparand_cases p with ⟨-, hnil⟩ | ⟨e', hname, he⟩
  · rw [hnil] at h
    exact absurd h List.not_mem_nil
  · rw [he, List.mem_singleton] at h
    rw [h]
    exact hname

/-- Beside an operator that asks for an order stands a value, perhaps a missing one. -/
theorem comparand_of_isOrderable {o : Operand} (h : o.meaning.isOrderable = true) (p : Probe) :
    ∃ v, (o.comparand p).1 = .value v := by
  cases hread : o.isRead with
  | true => exact comparand_of_isRead hread p
  | false =>
    obtain ⟨text, meaning⟩ := o
    cases meaning with
    | field f | length f | presence f => exact absurd hread (by simp [isRead, Meaning.isRead])
    | anyOf options | pattern glob => exact absurd h (by simp [Meaning.isOrderable])
    | literal text => exact ⟨_, rfl⟩

end Operand

/-! ## Whether a rule passes -/

/-- Whether the two operands of a condition satisfy its operator. -/
def Condition.holds (c : Condition) (p : Probe) : Bool :=
  match compareOperands (c.left.comparand p).1 (c.right.comparand p).1 c.operator with
  | .ok success => success
  | .error _ => false

/-- The answer depends neither on the text to annotate nor on whether values are hidden. -/
theorem Condition.evaluate_fst (c : Condition) (text : String) (p : Probe) (redact : Bool) :
    (c.evaluate text p redact).1 = c.holds p := by
  unfold evaluate holds
  cases hcompare : compareOperands (c.left.comparand p).1 (c.right.comparand p).1 c.operator <;>
    simp only [hcompare]

theorem Condition.holds_of_ok {c : Condition} {p : Probe} {success : Bool}
    (h : compareOperands (c.left.comparand p).1 (c.right.comparand p).1 c.operator = .ok success) :
    c.holds p = success := by
  rw [holds, h]

theorem Condition.holds_iff {c : Condition} {p : Probe} : c.holds p = true ↔
    compareOperands (c.left.comparand p).1 (c.right.comparand p).1 c.operator = .ok true := by
  rw [← c.evaluate_fst c.text p false, evaluate_fst_iff]

/-- The answer of a rule for a probe: whether it has a condition and the condition holds. -/
def Rule.passes (r : Rule) (p : Probe) : Bool :=
  (Condition.ofText? r.body).any fun c => c.holds p

namespace Rule

theorem passes_of_some {r : Rule} {c : Condition} (h : Condition.ofText? r.body = some c)
    (p : Probe) : r.passes p = c.holds p := by
  rw [passes, h]
  rfl

theorem passes_of_none {r : Rule} (h : Condition.ofText? r.body = none) (p : Probe) :
    r.passes p = false := by
  rw [passes, h]
  rfl

/-- The outcome of a rule is a success exactly if the rule passes. -/
theorem success_evaluate (r : Rule) (p : Probe) (redact : Bool) :
    (r.evaluate p redact).outcome.success = r.passes p := by
  cases hc : Condition.ofText? r.body with
  | none => rw [evaluate_of_none hc, passes_of_none hc]
  | some c =>
    rw [evaluate_of_some hc, passes_of_some hc]
    exact c.evaluate_fst r.body p redact

/-- Only a failure carries the severity of its rule. -/
theorem severity_evaluate (r : Rule) (p : Probe) (redact : Bool) :
    (r.evaluate p redact).outcome.severity = if r.passes p then .none else r.severity := by
  cases hc : Condition.ofText? r.body with
  | none =>
    rw [evaluate_of_none hc, passes_of_none hc]
    rfl
  | some c =>
    rw [evaluate_of_some hc, passes_of_some hc]
    simp only [Condition.evaluate_fst]

end Rule

/-! ## The errors of a rule -/

/-- The errors that a rule may have for a probe. -/
inductive Rule.Errors (r : Rule) (p : Probe) : List RuleError → Prop
  /-- The rule has no condition. -/
  | malformed (h : Condition.ofText? r.body = none) : Errors r p [.invalidCondition r.text]
  /-- Those of the left operand and then those of the right one. -/
  | operands {c : Condition} (h : Condition.ofText? r.body = some c) :
      Errors r p ((c.left.comparand p).2 ++ (c.right.comparand p).2)
  /-- Both operands have a value, but no order. -/
  | mismatch {c : Condition} {v w : Value} (h : Condition.ofText? r.body = some c)
      (ordering : c.operator.isOrdering = true)
      (left : (c.left.comparand p).1 = .value (some v))
      (right : (c.right.comparand p).1 = .value (some w)) :
      Errors r p [.mismatch (.kinds c.operator v.kind w.kind)]

namespace Condition

theorem evaluate_errors_of_ok {c : Condition} {p : Probe} {success : Bool}
    (h : compareOperands (c.left.comparand p).1 (c.right.comparand p).1 c.operator = .ok success)
    (text : String) (redact : Bool) :
    (c.evaluate text p redact).2.2 = (c.left.comparand p).2 ++ (c.right.comparand p).2 := by
  unfold evaluate
  simp only [h, List.append_nil]

theorem evaluate_errors_of_error {c : Condition} {p : Probe} {m : Mismatch}
    (h : compareOperands (c.left.comparand p).1 (c.right.comparand p).1 c.operator = .error m)
    (text : String) (redact : Bool) :
    (c.evaluate text p redact).2.2 =
      (c.left.comparand p).2 ++ (c.right.comparand p).2 ++ [.mismatch m] := by
  unfold evaluate
  simp only [h]

/-- If a well-formed condition has no answer, both of its operands have a value. -/
theorem WellFormed.exists_of_error {c : Condition} (h : c.WellFormed) {p : Probe} {m : Mismatch}
    (herror : compareOperands (c.left.comparand p).1 (c.right.comparand p).1 c.operator =
      .error m) :
    c.operator.isOrdering = true ∧ ∃ v w, (c.left.comparand p).1 = .value (some v) ∧
      (c.right.comparand p).1 = .value (some w) ∧ m = .kinds c.operator v.kind w.kind := by
  have hop := isOrdering_of_compareOperands_error herror
  -- the reader lets neither alternatives nor a pattern stand beside the operator
  obtain ⟨hl, hr⟩ := h.orderable hop
  obtain ⟨v, hv⟩ := Operand.comparand_of_isOrderable hl p
  obtain ⟨w, hw⟩ := Operand.comparand_of_isOrderable hr p
  -- and a missing value would have had an answer
  rw [hv, hw, compareOperands_value] at herror
  obtain ⟨x, y, rfl, rfl, hm⟩ := exists_of_compareValues_error herror
  exact ⟨hop, x, y, hv, hw, hm⟩

end Condition

namespace Rule

/-- The errors of an evaluation go together in one of the three ways. That a mismatch stands alone
rests on the reader: an operator that asks for an order is read between orderable operands only. -/
theorem errors_evaluate (r : Rule) (p : Probe) (redact : Bool) :
    r.Errors p (r.evaluate p redact).errors := by
  cases hc : Condition.ofText? r.body with
  | none =>
    rw [evaluate_of_none hc]
    exact .malformed hc
  | some c =>
    rw [evaluate_of_some hc]
    cases hcompare : compareOperands (c.left.comparand p).1 (c.right.comparand p).1
        c.operator with
    | ok success =>
      rw [Condition.evaluate_errors_of_ok hcompare]
      exact .operands hc
    | error m =>
      obtain ⟨-, hwell⟩ := Condition.wellFormed_of_ofText? hc
      obtain ⟨hop, v, w, hv, hw, rfl⟩ := hwell.exists_of_error hcompare
      -- both operands have a value, so the mismatch is the only error
      rw [Condition.evaluate_errors_of_error hcompare, Operand.errors_eq_nil_of_value hv,
        Operand.errors_eq_nil_of_value hw]
      exact .mismatch hc hop hv hw

/-- A rule that passes has a value for both operands, and so no error. -/
theorem errors_eq_nil_of_passes {r : Rule} {p : Probe} (h : r.passes p = true) (redact : Bool) :
    (r.evaluate p redact).errors = [] := by
  cases hc : Condition.ofText? r.body with
  | none =>
    rw [passes_of_none hc] at h
    exact absurd h (by decide)
  | some c =>
    rw [passes_of_some hc, Condition.holds_iff] at h
    obtain ⟨hleft, hright⟩ := ne_missing_of_compareOperands h
    rw [evaluate_of_some hc]
    show (c.evaluate r.body p redact).2.2 = []
    rw [Condition.evaluate_errors_of_ok h, Operand.errors_eq_nil hleft,
      Operand.errors_eq_nil hright, List.append_nil]

section Values

variable {r : Rule} {c : Condition} {p : Probe} {v w : Value}
  (hread : Condition.ofText? r.body = some c) (hleft : (c.left.comparand p).1 = .value (some v))
  (hright : (c.right.comparand p).1 = .value (some w))

include hread hleft hright

/-- A rule whose operands have values answers as these compare, and has no error. -/
theorem evaluate_of_values {success : Bool}
    (h : compareValues (some v) (some w) c.operator = .ok success) (redact : Bool) :
    (r.evaluate p redact).outcome.success = success ∧ (r.evaluate p redact).errors = [] := by
  have hcompare : compareOperands (c.left.comparand p).1 (c.right.comparand p).1 c.operator =
      .ok success := by
    rw [hleft, hright, compareOperands_value, h]
  constructor
  · rw [success_evaluate, passes_of_some hread, Condition.holds_of_ok hcompare]
  · rw [evaluate_of_some hread]
    show (c.evaluate r.body p redact).2.2 = []
    rw [Condition.evaluate_errors_of_ok hcompare, Operand.errors_eq_nil_of_value hleft,
      Operand.errors_eq_nil_of_value hright, List.append_nil]

/-- A rule whose operands have values that do not compare fails, and this is its only error. -/
theorem evaluate_of_mismatch {m : Mismatch}
    (h : compareValues (some v) (some w) c.operator = .error m) (redact : Bool) :
    (r.evaluate p redact).outcome.success = false ∧
      (r.evaluate p redact).errors = [.mismatch m] := by
  have hcompare : compareOperands (c.left.comparand p).1 (c.right.comparand p).1 c.operator =
      .error m := by
    rw [hleft, hright, compareOperands_value, h]
  constructor
  · rw [success_evaluate, passes_of_some hread, Condition.holds, hcompare]
  · rw [evaluate_of_some hread]
    show (c.evaluate r.body p redact).2.2 = [.mismatch m]
    rw [Condition.evaluate_errors_of_error hcompare, Operand.errors_eq_nil_of_value hleft,
      Operand.errors_eq_nil_of_value hright]
    rfl

/-- If the values are ordered as two whole numbers are, the answer is the relation between the
numbers. -/
theorem evaluate_of_compare {n m : Int} (h : v.order? w = some (compare n m)) (redact : Bool) :
    ((r.evaluate p redact).outcome.success = true ↔ c.operator.Relates n m) ∧
      (r.evaluate p redact).errors = [] := by
  obtain ⟨hsuccess, herrors⟩ :=
    evaluate_of_values hread hleft hright (compareValues_of_order h c.operator) redact
  rw [hsuccess, Operator.holds_compare_iff]
  exact ⟨Iff.rfl, herrors⟩

end Values

end Rule

/-! ## The record -/

/-- An evaluation records what a rule says of a probe, and nothing else. -/
structure Evaluation.Records (e : Evaluation) (r : Rule) (p : Probe) : Prop where
  success : e.outcome.success = r.passes p
  severity_of_success : e.outcome.success = true → e.outcome.severity = .none
  /-- A failure has the severity whose mark stands in front of the rule, or is critical. -/
  severity_of_failure : e.outcome.success = false → e.outcome.severity ≠ .none ∧
    ((e.outcome.severity ∈ Severity.marks ∧
        r.text.toList = e.outcome.severity.mark ++ r.body.toList) ∨
      ((∀ s ∈ Severity.marks, ¬ s.mark <+: r.text.toList) ∧ e.outcome.severity = .critical))
  errors_of_success : e.outcome.success = true → e.errors = []
  length_errors_le : e.errors.length ≤ 2
  errors_of_malformed : Condition.ofText? r.body = none → e.errors = [.invalidCondition r.text]
  /-- Without a mismatch the errors are those of the left operand, then those of the right one. An
  operand has one error, which names it, exactly if it is left without a value. -/
  errors_of_operands : ∀ c, Condition.ofText? r.body = some c → (∀ m, .mismatch m ∉ e.errors) →
    e.errors = (c.left.comparand p).2 ++ (c.right.comparand p).2 ∧
    ∀ o ∈ [c.left, c.right], ((o.comparand p).1 ≠ .value none ∧ (o.comparand p).2 = []) ∨
      ∃ error : RuleError, error.operand? = some o.text ∧ o.comparand p = (.value none, [error])
  /-- A mismatch stands alone, for an operator that asks for the order of two values. -/
  mismatch_alone : ∀ m, .mismatch m ∈ e.errors → e.errors = [.mismatch m] ∧
    ∃ c v w, Condition.ofText? r.body = some c ∧ c.operator.isOrdering = true ∧
      (c.left.comparand p).1 = .value (some v) ∧ (c.right.comparand p).1 = .value (some w) ∧
      m = .kinds c.operator v.kind w.kind
  /-- No message says that alternatives or a pattern have no order. -/
  message_ne : ∀ error ∈ e.errors, ∀ op,
    error.message ≠ (RuleError.mismatch (.notValues op)).message

namespace Rule

/-- There are at most two errors, one for each operand. -/
theorem Errors.length_le {r : Rule} {p : Probe} {es : List RuleError} (h : r.Errors p es) :
    es.length ≤ 2 := by
  cases h with
  | malformed h | mismatch h ordering left right => exact Nat.le_succ 1
  | @operands c h =>
    have hleft := c.left.length_errors_le_one p
    have hright := c.right.length_errors_le_one p
    rw [List.length_append]
    omega

theorem Errors.malformed_eq {r : Rule} {p : Probe} {es : List RuleError} (h : r.Errors p es)
    (hnone : Condition.ofText? r.body = none) : es = [.invalidCondition r.text] := by
  cases h with
  | malformed h => rfl
  | operands h | mismatch h ordering left right => rw [hnone] at h; exact absurd h (by simp)

theorem Errors.operands_eq {r : Rule} {p : Probe} {es : List RuleError} (h : r.Errors p es)
    {c : Condition} (hc : Condition.ofText? r.body = some c) (hno : ∀ m, .mismatch m ∉ es) :
    es = (c.left.comparand p).2 ++ (c.right.comparand p).2 := by
  cases h with
  | malformed h => rw [hc] at h; exact absurd h (by simp)
  | operands h => rw [hc, Option.some.injEq] at h; rw [h]
  | mismatch h ordering left right => exact absurd List.mem_cons_self (hno _)

/-- An error of an operand is about an operand. -/
theorem operand?_ne_none {c : Condition} {p : Probe} {error : RuleError}
    (h : error ∈ (c.left.comparand p).2 ++ (c.right.comparand p).2) : error.operand? ≠ none := by
  rcases List.mem_append.mp h with hleft | hright
  · simp [Operand.operand?_of_mem_errors hleft]
  · simp [Operand.operand?_of_mem_errors hright]

/-- Only a rule without a condition is reported as malformed. -/
theorem Errors.eq_none_of_invalidCondition {r : Rule} {p : Probe} {es : List RuleError}
    (h : r.Errors p es) {text : String} (hmem : .invalidCondition text ∈ es) :
    Condition.ofText? r.body = none := by
  cases h with
  | malformed h => exact h
  | operands h => exact absurd rfl (operand?_ne_none hmem)
  | mismatch h ordering left right => exact absurd hmem (by simp)

theorem Errors.mismatch_eq {r : Rule} {p : Probe} {es : List RuleError} (h : r.Errors p es)
    {m : Mismatch} (hm : .mismatch m ∈ es) : es = [.mismatch m] ∧
      ∃ c v w, Condition.ofText? r.body = some c ∧ c.operator.isOrdering = true ∧
        (c.left.comparand p).1 = .value (some v) ∧ (c.right.comparand p).1 = .value (some w) ∧
        m = .kinds c.operator v.kind w.kind := by
  cases h with
  | malformed h => exact absurd hm (by simp)
  | operands h => exact absurd rfl (operand?_ne_none hm)
  | @mismatch c v w h ordering left right =>
    rw [List.mem_singleton] at hm
    rw [hm]
    exact ⟨rfl, c, v, w, h, ordering, left, right, RuleError.mismatch.inj hm⟩

/-- No recorded message is the one for alternatives or a pattern under an operator that asks for an
order. -/
theorem Errors.message_ne {r : Rule} {p : Probe} {es : List RuleError} (h : r.Errors p es)
    {error : RuleError} (herror : error ∈ es) (op : Operator) :
    error.message ≠ (RuleError.mismatch (.notValues op)).message := by
  intro hmessage
  -- only a mismatch reads like one, and every recorded mismatch is between two values
  obtain ⟨m, rfl, hm⟩ := RuleError.mismatch_of_message_eq hmessage
  obtain ⟨-, c, v, w, -, -, -, -, rfl⟩ := h.mismatch_eq herror
  exact Mismatch.message_kinds_ne c.operator op v.kind w.kind hm

/-- Each field of the record is a property of the answer, the severity or the errors proved above.
-/
theorem records_evaluate (r : Rule) (p : Probe) (redact : Bool) :
    (r.evaluate p redact).Records r p where
  success := r.success_evaluate p redact
  severity_of_success := by
    intro h
    rw [success_evaluate] at h
    rw [severity_evaluate, if_pos h]
  severity_of_failure := by
    intro h
    rw [success_evaluate] at h
    rw [severity_evaluate, h, if_neg Bool.false_ne_true]
    refine ⟨r.severity_ne_none, ?_⟩
    rcases r.severity_cases with hmark | ⟨hno, hcritical, -⟩
    · exact .inl hmark
    · exact .inr ⟨hno, hcritical⟩
  errors_of_success := by
    intro h
    rw [success_evaluate] at h
    exact errors_eq_nil_of_passes h redact
  length_errors_le := (r.errors_evaluate p redact).length_le
  errors_of_malformed := (r.errors_evaluate p redact).malformed_eq
  errors_of_operands := by
    intro c hc hno
    exact ⟨(r.errors_evaluate p redact).operands_eq hc hno, fun o _ => o.comparand_cases p⟩
  mismatch_alone := fun _ => (r.errors_evaluate p redact).mismatch_eq
  message_ne := fun _ => (r.errors_evaluate p redact).message_ne

end Rule

/-- Evaluating a rule answers whether its outcome is a success, appends this outcome and the
messages of some errors, and changes nothing else. What is appended records what the rule says of
the probe, and is the same for every report on this probe. -/
theorem Report.evaluate_record (r : Report) (rule : Rule) (redact : Bool) :
    ∃ e : Evaluation, e.Records rule r.probe ∧
      ∀ s : Report, s.probe = r.probe →
        (s.evaluateRule rule redact).1 = e.outcome.success ∧
        s.evaluate rule redact = { s with
          outcomes := s.outcomes ++ [e.outcome]
          errors := s.errors ++ e.errors.map RuleError.message } := by
  refine ⟨rule.evaluate r.probe redact, rule.records_evaluate r.probe redact, ?_⟩
  intro s hprobe
  rw [← hprobe]
  exact ⟨congrArg Prod.fst (s.evaluateRule_eq rule redact), s.evaluate_eq_add rule redact⟩

/-- A failing rule that is evaluated twice answers so and is recorded twice, with one outcome and
one list of errors. -/
theorem Report.evaluate_record_twice :
    let rule : Rule := ⟨"Low :: [STATUS] == 200"⟩
    let r := Report.fresh Probe.empty .epoch
    ∃ e : Evaluation, e.Records rule Probe.empty ∧ (r.evaluateRule rule false).1 = false ∧
      (r.evaluate rule false).evaluate rule false = { r with
        outcomes := [e.outcome, e.outcome]
        errors := e.errors.map RuleError.message ++ e.errors.map RuleError.message } := by
  intro rule r
  obtain ⟨e, hrecords, hevaluate⟩ := Report.evaluate_record r rule false
  have hfails : rule.passes r.probe = false := by decide +kernel
  have hprobe : (r.evaluate rule false).probe = r.probe := rfl
  obtain ⟨hanswer, hfirst⟩ := hevaluate r rfl
  obtain ⟨-, hsecond⟩ := hevaluate _ hprobe
  refine ⟨e, hrecords, (hanswer.trans hrecords.success).trans hfails, ?_⟩
  rw [hsecond, hfirst]
  rfl

/-- Neither operand has a value: both say so, the left one first, and there is no mismatch. -/
example : (Rule.evaluate ⟨"Low :: len([BODY].b) < [BODY].a"⟩ Probe.empty false).errors.map
    RuleError.operand? = [some "len([BODY].b)", some "[BODY].a"] := by
  decide +kernel

end HealthRules
