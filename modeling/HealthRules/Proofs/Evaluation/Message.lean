import Mathlib
import HealthRules.RuleError

/-!
# Reading errors off their messages

Every message about a rule starts with words that tell its kind (`RuleError.lead`), and no message
of another kind starts with them (`RuleError.lead_eq_of_prefix_message`). So the kind of an error
can be read off its message, and of a mismatch also whether it is between two values
(`Mismatch.message_kinds_ne`).
-/

namespace HealthRules

namespace RuleError

/-- The words that every message of this kind starts with. -/
def lead : RuleError → String
  | invalidCondition _ => "invalid condition: "
  | unresolved _ _ => "failed to resolve "
  | noLength _ => "invalid use of len(): "
  | mismatch _ => "type mismatch: "
  | unknownSeverity _ => "unknown severity code: "

/-- The message about an operand without a value names it. -/
theorem prefix_message_unresolved (operand : String) (fault : PathFault) :
    ("failed to resolve " ++ operand).toList <+: (unresolved operand fault).message.toList := by
  have hmessage : (unresolved operand fault).message =
      "failed to resolve " ++ operand ++ ": " ++ fault.message := rfl
  rw [hmessage, String.append_assoc]
  exact ⟨_, String.toList_append.symm⟩

theorem lead_prefix_message (e : RuleError) : e.lead.toList <+: e.message.toList := by
  cases e with
  | unresolved operand fault =>
    have hlead : (unresolved operand fault).lead.toList <+:
        ("failed to resolve " ++ operand).toList := ⟨_, String.toList_append.symm⟩
    exact hlead.trans (prefix_message_unresolved operand fault)
  | invalidCondition text | noLength fault | mismatch m | unknownSeverity code =>
    exact ⟨_, String.toList_append.symm⟩

/-- The words of all kinds. -/
def leads : List String :=
  ["invalid condition: ", "failed to resolve ", "invalid use of len(): ", "type mismatch: ",
    "unknown severity code: "]

theorem lead_mem_leads (e : RuleError) : e.lead ∈ leads := by
  unfold lead leads
  cases e <;> simp only [List.mem_cons, true_or, or_true]

/-- No lead is the beginning of another, so a message tells which kind of error it is about. -/
theorem leads_prefix_free : ∀ v ∈ leads, ∀ w ∈ leads, v.toList <+: w.toList → v = w := by
  decide

/-- A message that starts with the words of a kind is of this kind. -/
theorem lead_eq_of_prefix_message {e : RuleError} {words : String} (hwords : words ∈ leads)
    (h : words.toList <+: e.message.toList) : e.lead = words := by
  rcases List.prefix_or_prefix_of_prefix h e.lead_prefix_message with hpre | hpre
  · exact (leads_prefix_free words hwords e.lead e.lead_mem_leads hpre).symm
  · exact leads_prefix_free e.lead e.lead_mem_leads words hwords hpre

theorem exists_invalidCondition_of_lead {e : RuleError}
    (h : "invalid condition: ".toList <+: e.message.toList) :
    ∃ text, e = .invalidCondition text := by
  have hlead : e.lead = "invalid condition: " := lead_eq_of_prefix_message (by decide) h
  cases e with
  | invalidCondition text => exact ⟨text, rfl⟩
  | unresolved operand fault | noLength fault | mismatch m | unknownSeverity code =>
    exact absurd hlead (by simp [lead])

theorem exists_unresolved_of_lead {e : RuleError}
    (h : "failed to resolve ".toList <+: e.message.toList) :
    ∃ operand fault, e = .unresolved operand fault := by
  have hlead : e.lead = "failed to resolve " := lead_eq_of_prefix_message (by decide) h
  cases e with
  | unresolved operand fault => exact ⟨operand, fault, rfl⟩
  | invalidCondition text | noLength fault | mismatch m | unknownSeverity code =>
    exact absurd hlead (by simp [lead])

theorem exists_mismatch_of_lead {e : RuleError}
    (h : "type mismatch: ".toList <+: e.message.toList) : ∃ m, e = .mismatch m := by
  have hlead : e.lead = "type mismatch: " := lead_eq_of_prefix_message (by decide) h
  cases e with
  | mismatch m => exact ⟨m, rfl⟩
  | invalidCondition text | unresolved operand fault | noLength fault | unknownSeverity code =>
    exact absurd hlead (by simp [lead])

end RuleError

/-! ## The two kinds of mismatch -/

namespace Mismatch

theorem prefix_message_kinds (op : Operator) (left right : Kind) :
    "cannot apply ".toList <+: (kinds op left right).message.toList := by
  have hmessage : (kinds op left right).message =
      "cannot apply " ++ op.symbol ++ " to " ++ left.name ++ " and " ++ right.name ++
        " operands" := rfl
  simp only [hmessage, String.append_assoc]
  rw [String.toList_append]
  exact List.prefix_append _ _

theorem prefix_message_notValues (op : Operator) :
    op.symbol.toList <+: (notValues op).message.toList :=
  ⟨_, String.toList_append.symm⟩

/-- A mismatch of two values does not read like one beside alternatives or a pattern. -/
theorem message_kinds_ne (op op' : Operator) (left right : Kind) :
    (kinds op left right).message ≠ (notValues op').message := by
  intro h
  have hkinds := prefix_message_kinds op left right
  rw [h] at hkinds
  rcases List.prefix_or_prefix_of_prefix hkinds (prefix_message_notValues op') with hpre | hpre
  · revert hpre
    cases op' <;> decide
  · revert hpre
    cases op' <;> decide

end Mismatch

/-- A message of a mismatch tells the text of the mismatch, since the lead in front of it is always
the same. -/
theorem RuleError.mismatch_of_message_eq {e : RuleError} {m : Mismatch}
    (h : e.message = (RuleError.mismatch m).message) :
    ∃ m', e = .mismatch m' ∧ m'.message = m.message := by
  have hpre : "type mismatch: ".toList <+: e.message.toList := by
    rw [h]
    exact (RuleError.mismatch m).lead_prefix_message
  obtain ⟨m', rfl⟩ := exists_mismatch_of_lead hpre
  refine ⟨m', rfl, ?_⟩
  have hmessages : "type mismatch: " ++ m'.message = "type mismatch: " ++ m.message := h
  rw [← String.toList_inj, String.toList_append, String.toList_append] at hmessages
  exact String.toList_inj.mp (List.append_cancel_left hmessages)

end HealthRules
