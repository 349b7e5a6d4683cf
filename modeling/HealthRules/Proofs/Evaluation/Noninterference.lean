import HealthRules.Proofs.Evaluation.Report
import HealthRules.Proofs.Grammar.Condition
import HealthRules.Proofs.Severity

/-!
# Fields that no rule needs

An endpoint says which fields of a probe its rules need by looking for their tokens in the raw
texts. It never says too little: two probes that differ only in fields it does not ask for are told
apart by none of its rules (`Endpoint.evaluate_noninterference`).

The argument has two halves. An evaluation depends on a probe only through the fields that the two
operands of the condition read (`Rule.evaluate_congr`), and whatever field an operand reads, its
token stands in the raw text of the rule (`Rule.tag_infix`).
-/

namespace HealthRules

/-! ## Evaluating needs the fields of the operands only -/

/-- An operand sees a probe through its field only. -/
theorem Operand.comparand_congr {o : Operand} {p q : Probe}
    (h : ∀ f ∈ o.meaning.field?, f.resolve? p = f.resolve? q) :
    o.comparand p = o.comparand q := by
  obtain ⟨text, meaning⟩ := o
  cases meaning with
  | field f => simp only [comparand, h f rfl]
  | length f => simp only [comparand, Field.lengthOf?, h f rfl]
  | presence f => simp only [comparand, Field.presenceOf, h f rfl]
  | anyOf options | pattern glob | literal text => rfl

/-- So does a rule through the fields of its operands. -/
theorem Rule.evaluate_congr {r : Rule} {p q : Probe} (redact : Bool)
    (h : ∀ c, Condition.ofText? r.body = some c → ∀ o ∈ [c.left, c.right],
      ∀ f ∈ o.meaning.field?, f.resolve? p = f.resolve? q) :
    r.evaluate p redact = r.evaluate q redact := by
  unfold evaluate
  cases hc : Condition.ofText? r.body with
  | none => rfl
  | some c =>
    have hleft : c.left.comparand p = c.left.comparand q :=
      Operand.comparand_congr (h c hc c.left (by simp))
    have hright : c.right.comparand p = c.right.comparand q :=
      Operand.comparand_congr (h c hc c.right (by simp))
    have hcond : c.evaluate r.body p redact = c.evaluate r.body q redact := by
      rw [Condition.evaluate, Condition.evaluate, hleft, hright]
    simp only [hcond]

/-! ## The token of every field that is read stands in the text -/

/-- What every text of a field starts with: its token, for a path into the body that of the body. -/
def Field.tag : Field → String
  | body _ => bodyToken
  | f => f.token

theorem Field.Written.tag_prefix {cs : List Char} {f : Field} (h : Field.Written cs f) :
    f.tag.toList <+: cs := by
  cases h with
  | @named token f hmem =>
    have hall : ∀ entry ∈ Field.named, entry.2.tag.toList <+: entry.1.toList := by
      decide
    exact hall (token, f) hmem
  | body _ => exact List.prefix_append _ _

theorem Meaning.infix_callText (name : String) (argument : List Char) :
    argument <:+: callText name argument := by
  refine ⟨name.toList ++ ['('], [')'], ?_⟩
  rw [callText, List.append_assoc, List.append_assoc, List.singleton_append]

/-- The tag of a field stands in every operand that reads it, also within a call. -/
theorem Meaning.Written.tag_infix {cs : List Char} {m : Meaning} {f : Field}
    (h : Meaning.Written cs m) (hf : f ∈ m.field?) : f.tag.toList <:+: cs := by
  obtain ⟨token, hw, hcs⟩ := h.exists_token hf
  have htoken : f.tag.toList <:+: token := hw.tag_prefix.isInfix
  rcases hcs with rfl | rfl | rfl
  · exact htoken
  · exact htoken.trans (infix_callText "len" token)
  · exact htoken.trans (infix_callText "has" token)

theorem Rule.tag_infix {r : Rule} {c : Condition} {o : Operand} {f : Field}
    (hc : Condition.ofText? r.body = some c) (ho : o ∈ [c.left, c.right])
    (hf : f ∈ o.meaning.field?) : f.tag.toList <:+: r.text.toList := by
  obtain ⟨htext, hwell⟩ := Condition.wellFormed_of_ofText? hc
  -- the rule is its severity and the condition, the condition its two operands and the operator
  have hbody : c.text.toList <:+: r.text.toList := by
    rw [← htext, body, String.toList_ofList]
    exact (Severity.split_suffix _).isInfix
  simp only [Condition.text, String.toList_append] at hbody
  simp only [List.mem_cons, List.not_mem_nil, or_false] at ho
  rcases ho with rfl | rfl
  · have hleft := hwell.leftWritten.tag_infix hf
    rw [List.append_assoc] at hbody
    exact (hleft.trans (List.prefix_append _ _).isInfix).trans hbody
  · have hright := hwell.rightWritten.tag_infix hf
    exact (hright.trans (List.suffix_append _ _).isInfix).trans hbody

/-! ## Probes that an endpoint cannot tell apart -/

namespace Endpoint

/-- Two probes differ at most in the host name and in fields that the endpoint does not need. -/
structure SameWhereNeeded (e : Endpoint) (p q : Probe) : Prop where
  httpStatus : p.httpStatus = q.httpStatus
  connected : p.connected = q.connected
  duration : p.duration = q.duration
  dnsRcode : p.dnsRcode = q.dnsRcode
  body : e.needsBody = true → p.body = q.body
  ip : e.needsIp = true → p.ip = q.ip
  domainExpiration : e.needsDomainExpiration = true → p.domainExpiration = q.domainExpiration
  certificateExpiration : e.needsCertificateExpiration = true →
    p.certificateExpiration = q.certificateExpiration

theorem resolve?_congr {e : Endpoint} {p q : Probe} (h : e.SameWhereNeeded p q) {r : Rule}
    (hr : r ∈ e.rules) {f : Field} (hf : f.tag.toList <:+: r.text.toList) :
    f.resolve? p = f.resolve? q := by
  have hneeds : e.rules.any (Rule.mentions f.tag) = true :=
    List.any_eq_true.mpr ⟨r, hr, Text.contains_iff.mpr hf⟩
  cases f with
  | status => simp only [Field.resolve?, h.httpStatus]
  | ip => simp only [Field.resolve?, h.ip hneeds]
  | connected => simp only [Field.resolve?, h.connected]
  | responseTime => simp only [Field.resolve?, h.duration]
  | certificateExpiration => simp only [Field.resolve?, h.certificateExpiration hneeds]
  | domainExpiration => simp only [Field.resolve?, h.domainExpiration hneeds]
  | dnsRcode => simp only [Field.resolve?, h.dnsRcode]
  | body path => cases path <;> simp only [Field.resolve?, h.body hneeds]

/-- Two probes that agree where a rule looks have the same evaluations, rule by rule. -/
theorem evaluations_congr {e : Endpoint} {p q : Probe} (h : e.SameWhereNeeded p q) :
    e.evaluations p = e.evaluations q := by
  unfold evaluations
  apply List.map_congr_left
  intro r hr
  apply Rule.evaluate_congr
  intro c hc o ho f hf
  exact resolve?_congr h hr (Rule.tag_infix hc ho hf)

/-- On two reports with the same outcomes, whose probes differ at most where the endpoint needs
nothing, an endpoint appends the same outcomes and the same errors, and leaves the same verdict. -/
theorem evaluate_noninterference (e : Endpoint) (r s : Report)
    (hprobe : e.SameWhereNeeded r.probe s.probe) (houtcomes : r.outcomes = s.outcomes) :
    ∃ (outcomes : List Outcome) (errors : List String),
      (e.evaluate r).outcomes = r.outcomes ++ outcomes ∧
      (e.evaluate s).outcomes = s.outcomes ++ outcomes ∧
      (e.evaluate r).errors = r.errors ++ errors ∧
      (e.evaluate s).errors = s.errors ++ errors ∧
      (e.evaluate r).success = (e.evaluate s).success ∧
      (e.evaluate r).severity = (e.evaluate s).severity := by
  have hsame := evaluations_congr hprobe
  rw [evaluate_eq, evaluate_eq, ← hsame, houtcomes]
  exact ⟨_, _, rfl, rfl, rfl, rfl, rfl, rfl⟩

/-- A rule on the address sees neither the body nor the host name. -/
theorem evaluate_noninterference_ip :
    SameWhereNeeded ⟨"api", "", "", [⟨"High :: [IP] != 10.0.0.1"⟩], false⟩
      Probe.empty { Probe.empty with body := [123], hostname := "a" } ∧
    (evaluate ⟨"api", "", "", [⟨"High :: [IP] != 10.0.0.1"⟩], false⟩
        (Report.fresh Probe.empty Timestamp.epoch)).severity =
      (evaluate ⟨"api", "", "", [⟨"High :: [IP] != 10.0.0.1"⟩], false⟩
        (Report.fresh { Probe.empty with body := [123], hostname := "a" }
          Timestamp.epoch)).severity := by
  have hsame : SameWhereNeeded ⟨"api", "", "", [⟨"High :: [IP] != 10.0.0.1"⟩], false⟩
      Probe.empty { Probe.empty with body := [123], hostname := "a" } := by
    constructor
    -- the one field besides the host name that differs is not needed
    case body => exact fun h => absurd h (by decide +kernel)
    all_goals intros; rfl
  obtain ⟨_, _, -, -, -, -, -, hseverity⟩ := evaluate_noninterference
    ⟨"api", "", "", [⟨"High :: [IP] != 10.0.0.1"⟩], false⟩
    (Report.fresh Probe.empty Timestamp.epoch)
    (Report.fresh { Probe.empty with body := [123], hostname := "a" } Timestamp.epoch) hsame rfl
  exact ⟨hsame, hseverity⟩

end Endpoint
end HealthRules
