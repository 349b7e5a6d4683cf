import Mathlib
import HealthRules.Proofs.Evaluation.Length
import HealthRules.Proofs.Evaluation.Record
import HealthRules.Proofs.Evaluation.Report

/-!
# Missing values

A field without a value leaves every operand that reads it, or its length, without a value. A rule
with such an operand fails whatever stands on its other side, and an error names the operand; no
error of this kind has another cause. Only `has(...)` puts up with a missing value, and answers
whether there is one (`Rule.evaluate_missing`).
-/

namespace HealthRules

/-! ## Fields without a value -/

namespace Field

variable {p : Probe} {token : String} {f : Field}

/-- The answer of `has` for a token is whether its field resolves. -/
theorem isSome_resolveToken? (h : ofToken? token.toList = some f) :
    (resolveToken? token p).isSome = (f.resolve? p).toBool := by
  rw [resolveToken?, h, Option.bind_some]
  cases f.resolve? p <;> rfl

theorem resolveToken?_eq_none_iff (h : ofToken? token.toList = some f) :
    resolveToken? token p = none ↔ ∃ fault, f.resolve? p = .error fault := by
  rw [resolveToken?, h, Option.bind_some]
  cases f.resolve? p <;> simp [Except.toOption]

end Field

/-! ## Operands that need a value -/

namespace Meaning

/-- The field without which an operand of this meaning has no value. -/
def needed? : Meaning → Option Field
  | field f | length f => some f
  | presence _ | anyOf _ | pattern _ | literal _ => none

/-- The operands that need a field are its tokens, and `len` of them. -/
theorem Written.needed?_eq_some_iff {cs : List Char} {m : Meaning} {f : Field}
    (h : Written cs m) : m.needed? = some f ↔
      ∃ token, Field.ofToken? token = some f ∧ (cs = token ∨ cs = callText "len" token) := by
  constructor
  · intro hf
    cases h with
    | @length token g hw =>
      have hg : g = f := Option.some.inj hf
      rw [← hg]
      exact ⟨token, Field.ofToken?_eq_some_iff.mpr hw, .inr rfl⟩
    | @field _ g hw =>
      have hg : g = f := Option.some.inj hf
      rw [← hg]
      exact ⟨cs, Field.ofToken?_eq_some_iff.mpr hw, .inl rfl⟩
    | presence _ | anyOf _ _ _ | pattern _ | literal _ _ => cases hf
  · rintro ⟨token, htoken, hcs⟩
    have hread := ofText?_of_written h
    rcases hcs with rfl | rfl
    · rw [ofText?_of_written (.field (Field.ofToken?_eq_some_iff.mp htoken))] at hread
      cases hread
      rfl
    · rw [ofText?_len, htoken] at hread
      cases hread
      rfl

end Meaning

namespace Operand

variable {o : Operand} {p : Probe} {f : Field} {fault : PathFault}

/-- An operand that needs a field which does not resolve is left without a value, and says so. -/
theorem comparand_of_unresolved (hneeded : o.meaning.needed? = some f)
    (h : f.resolve? p = .error fault) :
    o.comparand p = (.value none, [.unresolved o.text fault]) := by
  obtain ⟨text, meaning⟩ := o
  unfold comparand
  cases meaning with
  | field g =>
    cases hneeded
    simp only [h]
  | length g =>
    cases hneeded
    simp only [Field.lengthOf?_of_unresolved text h]
  | presence _ | anyOf _ | pattern _ | literal _ => cases hneeded

/-- An operand is reported to have no value exactly if the field that it needs has none. -/
theorem unresolved_mem_errors_iff {text : String} :
    .unresolved text fault ∈ (o.comparand p).2 ↔
      text = o.text ∧ ∃ f, o.meaning.needed? = some f ∧ f.resolve? p = .error fault := by
  constructor
  · obtain ⟨name, meaning⟩ := o
    unfold comparand
    intro hmem
    -- of the operands that read a field, `has` alone has a value in any case
    cases meaning with
    | field f =>
      cases hf : f.resolve? p with
      | ok v => simp only [hf, List.not_mem_nil] at hmem
      | error fault' =>
        simp only [hf, List.mem_singleton, RuleError.unresolved.injEq] at hmem
        obtain ⟨rfl, rfl⟩ := hmem
        exact ⟨rfl, f, rfl, hf⟩
    | length f =>
      rcases Field.lengthOf?_cases name p f with ⟨n, -, hn⟩ | ⟨v, -, hv⟩ | ⟨fault', hf, herror⟩
      · simp only [hn, List.not_mem_nil] at hmem
      · simp only [hv, List.mem_singleton, reduceCtorEq] at hmem
      · simp only [herror, List.mem_singleton, RuleError.unresolved.injEq] at hmem
        obtain ⟨rfl, rfl⟩ := hmem
        exact ⟨rfl, f, rfl, hf⟩
    | presence f | anyOf options | pattern glob | literal text => cases hmem
  · rintro ⟨rfl, f, hneeded, hf⟩
    rw [comparand_of_unresolved hneeded hf]
    exact List.mem_cons_self

end Operand

/-! ## Rules that lack a value -/

/-- A rule lacks the value of one of its operands: the operand is a token or `len` of a token, and
the field that the token names is not resolved. -/
def Rule.Lacks (r : Rule) (p : Probe) (o : Operand) : Prop :=
  ∃ c token, Condition.ofText? r.body = some c ∧ o ∈ [c.left, c.right] ∧
    (o.text = token ∨ o.text = "len(" ++ token ++ ")") ∧
    (Field.ofToken? token.toList).isSome = true ∧ Field.resolveToken? token p = none

namespace Rule

variable {r : Rule} {p : Probe} {o : Operand}

/-- A rule lacks a value exactly if one of its operands needs a field that does not resolve. -/
theorem lacks_iff : r.Lacks p o ↔ ∃ c, Condition.ofText? r.body = some c ∧
    o ∈ [c.left, c.right] ∧
      ∃ f fault, o.meaning.needed? = some f ∧ f.resolve? p = .error fault := by
  constructor
  · rintro ⟨c, token, hc, ho, htext, htoken, hnone⟩
    obtain ⟨f, hf⟩ := Option.isSome_iff_exists.mp htoken
    obtain ⟨fault, hfault⟩ := (Field.resolveToken?_eq_none_iff hf).mp hnone
    have hwritten := (Condition.wellFormed_of_ofText? hc).2.written ho
    refine ⟨c, hc, ho, f, fault, hwritten.needed?_eq_some_iff.mpr ⟨token.toList, hf, ?_⟩, hfault⟩
    rcases htext with htext | htext
    · exact .inl (congrArg String.toList htext)
    · exact .inr ((congrArg String.toList htext).trans (Meaning.toList_call "len" token))
  · rintro ⟨c, hc, ho, f, fault, hneeded, hfault⟩
    have hwritten := (Condition.wellFormed_of_ofText? hc).2.written ho
    obtain ⟨token, htoken, htext⟩ := hwritten.needed?_eq_some_iff.mp hneeded
    rw [← String.toList_ofList (l := token)] at htoken htext
    refine ⟨c, String.ofList token, hc, ho, ?_, by rw [htoken]; rfl,
      (Field.resolveToken?_eq_none_iff htoken).mpr ⟨fault, hfault⟩⟩
    rcases htext with htext | htext
    · exact .inl (String.toList_inj.mp htext)
    · rw [← Meaning.toList_call] at htext
      exact .inr (String.toList_inj.mp htext)

/-- The operand that lacks its value is compared as a missing one. -/
theorem not_passes_of_lacks (h : r.Lacks p o) : r.passes p = false := by
  obtain ⟨c, hc, ho, f, fault, hneeded, hfault⟩ := lacks_iff.mp h
  rw [← Bool.not_eq_true, passes_of_some hc, Condition.holds_iff]
  intro hholds
  obtain ⟨hleft, hright⟩ := ne_missing_of_compareOperands hholds
  have hmissing : (o.comparand p).1 = .value none := by
    rw [Operand.comparand_of_unresolved hneeded hfault]
  rw [List.mem_pair] at ho
  rcases ho with rfl | rfl
  · exact hleft hmissing
  · exact hright hmissing

/-- A rule that lacks the value of an operand reports this operand. -/
theorem Errors.mem_of_lacks {es : List RuleError} (h : r.Errors p es) (hlacks : r.Lacks p o) :
    ∃ fault, .unresolved o.text fault ∈ es := by
  obtain ⟨c, hc, ho, f, fault, hneeded, hfault⟩ := lacks_iff.mp hlacks
  have hmissing := Operand.comparand_of_unresolved hneeded hfault
  have hmem : .unresolved o.text fault ∈ (o.comparand p).2 :=
    Operand.unresolved_mem_errors_iff.mpr ⟨rfl, f, hneeded, hfault⟩
  rw [List.mem_pair] at ho
  refine ⟨fault, ?_⟩
  cases h with
  | malformed hnone =>
    rw [hc] at hnone
    cases hnone
  | operands hd =>
    rw [hc] at hd
    cases hd
    rcases ho with rfl | rfl
    · exact List.mem_append_left _ hmem
    · exact List.mem_append_right _ hmem
  | mismatch hd ordering left right =>
    -- beside a mismatch both operands have a value
    rw [hc] at hd
    cases hd
    rcases ho with rfl | rfl
    · rw [hmissing] at left
      cases left
    · rw [hmissing] at right
      cases right

/-- An operand that is reported to have no value is one whose value the rule lacks. -/
theorem Errors.exists_lacks {es : List RuleError} (h : r.Errors p es) {text : String}
    {fault : PathFault} (hmem : .unresolved text fault ∈ es) :
    ∃ o, r.Lacks p o ∧ text = o.text := by
  cases h with
  | malformed hnone => simp at hmem
  | @operands c hc =>
    have hoperand : ∃ o ∈ [c.left, c.right], .unresolved text fault ∈ (o.comparand p).2 := by
      rcases List.mem_append.mp hmem with hleft | hright
      · exact ⟨c.left, List.mem_cons_self, hleft⟩
      · exact ⟨c.right, List.mem_pair.mpr (.inr rfl), hright⟩
    obtain ⟨o, ho, herror⟩ := hoperand
    obtain ⟨rfl, f, hneeded, hfault⟩ := Operand.unresolved_mem_errors_iff.mp herror
    exact ⟨o, lacks_iff.mpr ⟨c, hc, ho, f, fault, hneeded, hfault⟩, rfl⟩
  | mismatch hc ordering left right => simp at hmem

/-- The message of an error says that an operand has no value only if the rule lacks this value. -/
theorem exists_lacks_of_message {redact : Bool} {error : RuleError}
    (herror : error ∈ (r.evaluate p redact).errors)
    (h : "failed to resolve ".toList <+: error.message.toList) :
    ∃ o, r.Lacks p o ∧ ("failed to resolve " ++ o.text).toList <+: error.message.toList := by
  obtain ⟨text, fault, rfl⟩ := RuleError.exists_unresolved_of_lead h
  obtain ⟨o, hlacks, rfl⟩ := (r.errors_evaluate p redact).exists_lacks herror
  exact ⟨o, hlacks, RuleError.prefix_message_unresolved o.text fault⟩

end Rule

/-! ## Asking for a value -/

/-- The call that asks whether the field that a token names has a value. -/
def Operand.presence (token : String) (f : Field) : Operand :=
  ⟨"has" ++ "(" ++ token ++ ")", .presence f⟩

/-- A truth value as it is written in a condition. -/
def Operand.truth (b : Bool) : Operand :=
  ⟨(Field.ofBool b).text, .literal (Field.ofBool b).text⟩

/-- The rule `has(token) == true`, or `has(token) == false`. -/
def Rule.presence (token : String) (answer : Bool) : Rule :=
  ⟨"has(" ++ token ++ ") == " ++ (Field.ofBool answer).text⟩

section Presence

variable {token : String} {f : Field}

theorem Operand.unspaced_presence (h : Field.ofToken? token.toList = some f) :
    (presence token f).Unspaced := by
  have htext : (presence token f).text.toList = Meaning.callText "has" token.toList :=
    Meaning.toList_call "has" token
  have hwritten := Field.ofToken?_eq_some_iff.mp h
  constructor
  case ne_nil =>
    rw [htext]
    exact Meaning.call_ne_nil "has" token.toList
  case trimmed =>
    rw [htext]
    exact Meaning.trim_call (by decide) token.toList
  case noSpace =>
    rw [htext]
    exact Meaning.space_not_mem_call (by decide) hwritten.space_not_mem
  case written =>
    rw [htext]
    exact .presence hwritten

theorem Operand.unspaced_truth (b : Bool) : (truth b).Unspaced where
  ne_nil := by cases b <;> decide
  trimmed := by cases b <;> decide
  noSpace := by cases b <;> decide
  written := Meaning.ofText?_eq_some_iff.mp (by cases b <;> decide +kernel)

theorem Rule.ofText?_body_presence (h : Field.ofToken? token.toList = some f) (answer : Bool) :
    Condition.ofText? (Rule.presence token answer).body =
      some ⟨.presence token f, .eq, .truth answer⟩ := by
  have hread := ofText?_body_unspaced (Operand.unspaced_presence h)
    (Operand.unspaced_truth answer) .eq (fun hordering => absurd hordering (by decide))
  have htext : Rule.presence token answer =
      ⟨(Operand.presence token f).text ++ " " ++ Operator.eq.symbol ++ " " ++
        (Operand.truth answer).text⟩ := by
    show Rule.mk ("has(" ++ token ++ ") == " ++ (Field.ofBool answer).text) =
      ⟨"has" ++ "(" ++ token ++ ")" ++ " " ++ "==" ++ " " ++ (Field.ofBool answer).text⟩
    simp only [String.append_assoc]
    rfl
  rw [htext]
  exact hread

/-- Truth values are compared as truth values. -/
theorem Value.isEqual_ofBool (a b : Bool) :
    (Field.ofBool a).isEqual (literal (Field.ofBool b).text) = (a == b) := by
  cases a <;> cases b <;> decide +kernel

/-- A rule about `has` answers whether the field resolves, and never has an error. -/
theorem Rule.evaluate_presence (h : Field.ofToken? token.toList = some f) (answer : Bool)
    (p : Probe) (redact : Bool) :
    ((Rule.presence token answer).evaluate p redact).outcome.success =
        ((f.resolve? p).toBool == answer) ∧
      ((Rule.presence token answer).evaluate p redact).errors = [] := by
  have hequal : compareValues (some (f.presenceOf p))
      (some (Value.literal (Field.ofBool answer).text)) .eq =
        .ok ((f.resolve? p).toBool == answer) := by
    rw [← Value.isEqual_ofBool]
    rfl
  exact evaluate_of_values (ofText?_body_presence h answer) rfl rfl hequal redact

end Presence

/-! ## The answers -/

/-- A missing value shows in these ways. `has(...)` of a token answers whether it is resolved, and
never has an error. A rule that lacks the value of an operand fails, whatever its operator and its
other operand, and has an error that says so with the text of this operand. An error that says so
comes from such an operand, also among those that an endpoint appends to a report. -/
theorem Rule.evaluate_missing (p : Probe) (redact : Bool) :
    (∀ token : String, (Field.ofToken? token.toList).isSome = true →
      (((presence token true).evaluate p redact).outcome.success = true ↔
        (Field.resolveToken? token p).isSome = true) ∧
      (((presence token false).evaluate p redact).outcome.success = false ↔
        (Field.resolveToken? token p).isSome = true) ∧
      ∀ answer, ((presence token answer).evaluate p redact).errors = []) ∧
    (∀ (rule : Rule) (o : Operand), rule.Lacks p o →
      (rule.evaluate p redact).outcome.success = false ∧
      ∃ error ∈ (rule.evaluate p redact).errors,
        ("failed to resolve " ++ o.text).toList <+: error.message.toList) ∧
    (∀ rule : Rule, ∀ error ∈ (rule.evaluate p redact).errors,
      "failed to resolve ".toList <+: error.message.toList →
      ∃ o, rule.Lacks p o ∧
        ("failed to resolve " ++ o.text).toList <+: error.message.toList) ∧
    ∀ (e : Endpoint) (r : Report), r.probe = p →
      ∃ messages, (e.evaluate r).errors = r.errors ++ messages ∧
        ∀ message ∈ messages, "failed to resolve ".toList <+: message.toList →
          ∃ rule ∈ e.rules, ∃ o, rule.Lacks p o ∧
            ("failed to resolve " ++ o.text).toList <+: message.toList := by
  refine ⟨?_, ?_, fun rule error => exists_lacks_of_message, ?_⟩
  · -- the answer of `has`
    intro token htoken
    obtain ⟨f, hf⟩ := Option.isSome_iff_exists.mp htoken
    rw [Field.isSome_resolveToken? hf, (evaluate_presence hf true p redact).1,
      (evaluate_presence hf false p redact).1, beq_iff_eq, beq_eq_false_iff_ne, ne_eq,
      Bool.not_eq_false]
    exact ⟨Iff.rfl, Iff.rfl, fun answer => (evaluate_presence hf answer p redact).2⟩
  · -- a rule that lacks a value
    intro rule o hlacks
    obtain ⟨fault, hmem⟩ := (rule.errors_evaluate p redact).mem_of_lacks hlacks
    refine ⟨?_, _, hmem, RuleError.prefix_message_unresolved o.text fault⟩
    rw [success_evaluate, not_passes_of_lacks hlacks]
  · -- the messages that an endpoint appends are those of its rules
    rintro e r rfl
    rw [Endpoint.evaluate_eq]
    refine ⟨_, rfl, ?_⟩
    intro message hmessage hlead
    obtain ⟨v, hv, herror⟩ := List.mem_flatMap.mp hmessage
    obtain ⟨rule, hrule, rfl⟩ := List.mem_map.mp hv
    obtain ⟨error, hmem, rfl⟩ := List.mem_map.mp herror
    exact ⟨rule, hrule, exists_lacks_of_message hmem hlead⟩

/-- A status that is there, and a key that is missing on the right, behind a plus in an index,
beside a pattern that matches every text. -/
theorem Rule.evaluate_missing_pattern :
    ((presence "[STATUS]" true).evaluate Probe.empty false).outcome.success = true ∧
    (evaluate ⟨"Low :: pat(*) != len([BODY][+0].a)"⟩ Probe.empty false).outcome.success = false ∧
    ∃ error ∈ (evaluate ⟨"Low :: pat(*) != len([BODY][+0].a)"⟩ Probe.empty false).errors,
      "failed to resolve len([BODY][+0].a)".toList <+: error.message.toList := by
  obtain ⟨hpresence, hmissing, -⟩ := evaluate_missing Probe.empty false
  have hthere : ((presence "[STATUS]" true).evaluate Probe.empty false).outcome.success = true :=
    (hpresence "[STATUS]" (by decide +kernel)).1.mpr (by decide +kernel)
  have hread : Condition.ofText? (body ⟨"Low :: pat(*) != len([BODY][+0].a)"⟩) =
      some ⟨⟨"pat(*)", .pattern "*"⟩, .ne,
        ⟨"len([BODY][+0].a)", .length (.body [.index 0, .key "a"])⟩⟩ := by
    decide +kernel
  have hlacks : Lacks ⟨"Low :: pat(*) != len([BODY][+0].a)"⟩ Probe.empty
      ⟨"len([BODY][+0].a)", .length (.body [.index 0, .key "a"])⟩ :=
    ⟨_, "[BODY][+0].a", hread, List.mem_pair.mpr (.inr rfl), .inr (by decide), by decide +kernel,
      by decide +kernel⟩
  obtain ⟨hfails, error, hmem, hmessage⟩ := hmissing _ _ hlacks
  have htext : "failed to resolve " ++ "len([BODY][+0].a)" =
      "failed to resolve len([BODY][+0].a)" := by
    decide
  rw [htext] at hmessage
  exact ⟨hthere, hfails, error, hmem, hmessage⟩

end HealthRules
