import Mathlib
import HealthRules.Proofs.Duration.Literal
import HealthRules.Proofs.Evaluation.Record

/-!
# Comparing durations of a probe

Three fields of a probe are durations, and are written as their whole milliseconds. A rule that
compares one of them with whole seconds, minutes, hours or days answers as exact arithmetic does on
the milliseconds of both (`Rule.evaluate_wholeSeconds`).

The literal is exact because its milliseconds have 53 bits. The field may be far longer than that,
and is then rounded; but no number of more bits is rounded to one of 53 bits, so the two stay in
their order.
-/

namespace HealthRules

open Number (natural?)
open Number.Binary64 (whole)

/-! ## The order of milliseconds -/

/-- The text of a natural number beside a literal: the number is rounded and compared with the
milliseconds of the literal. -/
theorem Value.order?_of_literal {v w : Value} {m k : Nat} {d : Duration}
    (hv : v.text.toList = Number.ofNat m) (hm : m < 2 ^ k) (hk : k < 1024)
    (hw : Duration.literal? w.text.toList = some d) :
    ∃ x : Number.Binary64,
      x.scaled = Number.Binary64.nearest m * Number.Binary64.unitsPerOne ∧
      v.order? w = some (x.cmp d.milliseconds) := by
  have htext : v.text.toList = Number.ofInt m := hv
  obtain ⟨x, hx, hscaled⟩ := Number.binary64?_ofInt (n := m) hm hk
  have hleft : v.milliseconds? = some x := by
    rw [milliseconds?, htext, Duration.literal?_ofInt]
    exact hx
  have hright : w.milliseconds? = some d.milliseconds := by
    rw [milliseconds?, hw]
  -- a text that reads as a duration is enough, whatever its kind is
  have hinvolved : (v.involvesDuration || w.involvesDuration) = true := by
    have hduration : w.involvesDuration = true := by
      rw [involvesDuration, hw, Option.isSome_some, Bool.or_true]
    rw [hduration, Bool.or_true]
  refine ⟨x, hscaled, ?_⟩
  unfold order?
  rw [if_pos hinvolved, hleft, hright]
  rfl

/-- The text of a natural number beside a literal whose milliseconds are exact. -/
theorem Value.order?_milliseconds {v w : Value} {m t k : Nat} {d : Duration}
    (hv : v.text.toList = Number.ofNat m) (hm : m < 2 ^ k) (hk : k < 1024)
    (hw : Duration.literal? w.text.toList = some d) (hd : d.milliseconds = whole t)
    (ht : t < 2 ^ 53) : v.order? w = some (compare (m : Int) t) := by
  obtain ⟨x, hscaled, horder⟩ := order?_of_literal hv hm hk hw
  have hself : Number.Binary64.nearest t = t := Number.Binary64.nearest_of_lt ht
  have hcompare : compare (Number.Binary64.nearest m) (Number.Binary64.nearest t) =
      compare (m : Int) t :=
    Number.Binary64.compare_nearest fun heq => Number.Binary64.eq_of_nearest_eq ht heq
  rw [hself] at hcompare
  rw [horder, hd, Number.Binary64.cmp_of_scaled hscaled (Number.Binary64.scaled_whole t), hcompare]

/-! ## Fields -/

namespace Field

/-- The duration that a field reads, if it reads one. -/
def duration? (p : Probe) : Field → Option Duration
  | responseTime => some p.duration
  | certificateExpiration => some p.certificateExpiration
  | domainExpiration => some p.domainExpiration
  | status | ip | connected | dnsRcode | body _ => none

variable {f : Field} {p : Probe} {d : Duration}

/-- A field with a duration resolves to its whole milliseconds, as a duration or as an integer. -/
theorem resolve?_duration (h : f.duration? p = some d) :
    ∃ kind, f.resolve? p = .ok (ofNat d.wholeMilliseconds kind) := by
  cases f with
  | responseTime => cases h; exact ⟨.integer, rfl⟩
  | certificateExpiration => cases h; exact ⟨.duration, rfl⟩
  | domainExpiration => cases h; exact ⟨.duration, rfl⟩
  | status | ip | connected | dnsRcode | body _ => cases h

/-- An operand that is the token of such a field has these milliseconds as its value. -/
theorem comparand_duration (h : f.duration? p = some d) :
    ∃ kind, (Operand.comparand ⟨f.token, .field f⟩ p).1 =
      .value (some (ofNat d.wholeMilliseconds kind)) := by
  obtain ⟨kind, hresolve⟩ := resolve?_duration h
  refine ⟨kind, ?_⟩
  unfold Operand.comparand
  simp only [hresolve]

theorem unspaced_duration (h : f.duration? p = some d) :
    Operand.Unspaced ⟨f.token, .field f⟩ := by
  cases f with
  | responseTime | certificateExpiration | domainExpiration =>
    exact Operand.unspaced_named (by decide)
  | status | ip | connected | dnsRcode | body _ => cases h

end Field

/-- A duration has at most 74 bits of milliseconds, so its double is finite. -/
theorem Duration.wholeMilliseconds_lt (d : Duration) : d.wholeMilliseconds < 2 ^ 74 := by
  have hseconds : d.seconds.toNat < 2 ^ 64 := d.seconds.toNat_lt
  have hnanos : d.nanoseconds.val < 1000000000 := d.nanoseconds.isLt
  unfold wholeMilliseconds
  omega

/-! ## Literals -/

namespace Duration

variable {digits : List Char} {n : Nat}

/-- A number with a unit is an operand. -/
theorem unspaced_span {name : List Char} {unit : TimeUnit} (hn : natural? digits = some n)
    (hname : TimeUnit.ofName? name = some unit) :
    Operand.Unspaced
      ⟨String.ofList (digits ++ name), .literal (String.ofList (digits ++ name))⟩ := by
  obtain ⟨hdigits, hall, -⟩ := Number.natural?_eq_some_iff.mp hn
  refine Operand.unspaced_literal (List.append_ne_nil_of_left_ne_nil hdigits _) fun c hc => ?_
  rcases List.mem_append.mp hc with hdigit | hunit
  · have hc := hall c hdigit
    exact ⟨Number.isBlank_of_isDigit hc, ne_of_apply_ne Char.isDigit (by rw [hc]; decide),
      ne_of_apply_ne Char.isDigit (by rw [hc]; decide)⟩
  · have hc := (TimeUnit.isName_of_ofName? hname).chars c hunit
    exact ⟨isBlank_of_isUnitChar hc, ne_of_apply_ne isUnitChar (by rw [hc]; decide),
      ne_of_apply_ne isUnitChar (by rw [hc]; decide)⟩

/-- The letters of four units, and the milliseconds of each. -/
def wholeUnits : List (Char × Nat) :=
  [('s', 1000), ('m', 60000), ('h', 3600000), ('d', 86400000)]

variable {letter : Char} {ms : Nat}

/-- A unit of a whole number of seconds has no nanoseconds. -/
theorem exists_size_of_mem_wholeUnits (h : (letter, ms) ∈ wholeUnits) :
    ∃ unit s, TimeUnit.ofName? [letter] = some unit ∧ unit.size = (s, 0) ∧ 0 < s ∧
      ms = s * 1000 := by
  simp only [wholeUnits, List.mem_cons, Prod.mk.injEq, List.not_mem_nil, or_false] at h
  rcases h with ⟨rfl, rfl⟩ | ⟨rfl, rfl⟩ | ⟨rfl, rfl⟩ | ⟨rfl, rfl⟩
  · exact ⟨.second, 1, by decide +kernel, rfl, by decide, rfl⟩
  · exact ⟨.minute, 60, by decide +kernel, rfl, by decide, rfl⟩
  · exact ⟨.hour, 3600, by decide +kernel, rfl, by decide, rfl⟩
  · exact ⟨.day, 86400, by decide +kernel, rfl, by decide, rfl⟩

end Duration

/-! ## The rule -/

namespace Rule

/-- A rule that compares a field that is a duration with a number and a unit holds this
condition. -/
theorem ofText?_body_span {f : Field} {p : Probe} {d : Duration} {digits name : List Char} {n : Nat}
    {unit : Duration.TimeUnit} (hf : f.duration? p = some d) (hn : natural? digits = some n)
    (hname : Duration.TimeUnit.ofName? name = some unit) (op : Operator) :
    Condition.ofText? (body
        ⟨f.token ++ " " ++ op.symbol ++ " " ++ String.ofList (digits ++ name)⟩) =
      some ⟨⟨f.token, .field f⟩, op,
        ⟨String.ofList (digits ++ name), .literal (String.ofList (digits ++ name))⟩⟩ :=
  ofText?_body_unspaced (Field.unspaced_duration hf) (Duration.unspaced_span hn hname) op
    fun _ => ⟨rfl, rfl⟩

/-- A field that is a duration, compared with a literal whose milliseconds are exact. -/
theorem evaluate_exactLiteral {f : Field} {p : Probe} {d e : Duration} {digits name : List Char}
    {n t : Nat} {unit : Duration.TimeUnit} (hf : f.duration? p = some d)
    (hn : natural? digits = some n) (hname : Duration.TimeUnit.ofName? name = some unit)
    (hliteral : Duration.literal? (digits ++ name) = some e) (hexact : e.milliseconds = whole t)
    (ht : t < 2 ^ 53) (op : Operator) (redact : Bool) :
    let rule : Rule := ⟨f.token ++ " " ++ op.symbol ++ " " ++ String.ofList (digits ++ name)⟩
    ((rule.evaluate p redact).outcome.success = true ↔ op.Relates d.wholeMilliseconds t) ∧
      (rule.evaluate p redact).errors = [] := by
  intro rule
  have hread : Condition.ofText? rule.body = some ⟨⟨f.token, .field f⟩, op,
      ⟨String.ofList (digits ++ name), .literal (String.ofList (digits ++ name))⟩⟩ :=
    ofText?_body_span hf hn hname op
  obtain ⟨kind, hleft⟩ := Field.comparand_duration hf
  have horder : (Field.ofNat d.wholeMilliseconds kind).order?
      (Value.literal (String.ofList (digits ++ name))) =
        some (compare (d.wholeMilliseconds : Int) t) := by
    refine Value.order?_milliseconds String.toList_ofList d.wholeMilliseconds_lt (by decide) ?_
      hexact ht
    show Duration.literal? (String.ofList (digits ++ name)).toList = some e
    rw [String.toList_ofList, hliteral]
  exact evaluate_of_compare hread hleft rfl horder redact

/-- A field that is a duration, compared with a literal of whole seconds below 2 ^ 53 milliseconds:
every operator answers the relation between the whole milliseconds of both, and there is no error.
The literal is a number, perhaps with zeros in front, and the letter of a unit. -/
theorem evaluate_wholeSeconds {f : Field} {p : Probe} {d : Duration} (hf : f.duration? p = some d)
    {digits : List Char} {n : Nat} (hn : natural? digits = some n) {letter : Char} {ms : Nat}
    (hunit : (letter, ms) ∈ Duration.wholeUnits) (hsmall : n * ms < 2 ^ 53) (op : Operator)
    (redact : Bool) :
    let rule : Rule :=
      ⟨f.token ++ " " ++ op.symbol ++ " " ++ String.ofList (digits ++ [letter])⟩
    ((rule.evaluate p redact).outcome.success = true ↔
        op.Relates d.wholeMilliseconds (n * ms : Nat)) ∧
      (rule.evaluate p redact).errors = [] := by
  obtain ⟨unit, s, hname, hsize, hpos, rfl⟩ := Duration.exists_size_of_mem_wholeUnits hunit
  rw [← Nat.mul_assoc] at hsmall ⊢
  have hseconds : n * s ≤ Number.maxUnsigned64 :=
    Nat.le_trans (show n * s ≤ 2 ^ 53 by omega) (by decide)
  have hfit : n ≤ Number.maxUnsigned64 := (Nat.le_mul_of_pos_right n hpos).trans hseconds
  have hliteral := Duration.literal?_span hn hfit hname (by rw [hsize]; exact Nat.zero_le _)
  rw [hsize, Nat.mul_zero, Duration.ofParts?_whole hseconds] at hliteral
  exact evaluate_exactLiteral hf hn hname hliteral (Duration.milliseconds_whole hsmall) hsmall op
    redact

/-- A certificate that is valid for 2 ^ 53 + 1 milliseconds, which no binary number is, and a
literal of whole seconds just below. -/
theorem evaluate_wholeSeconds_rounded :
    let p := { Probe.empty with certificateExpiration := ⟨9007199254740, 993000000⟩ }
    (evaluate ⟨"[CERTIFICATE_EXPIRATION] > 009007199254740s"⟩ p false).outcome.success = true ∧
      (evaluate ⟨"[CERTIFICATE_EXPIRATION] > 009007199254740s"⟩ p false).errors = [] := by
  intro p
  have hn : natural? "009007199254740".toList = some 9007199254740 := by decide +kernel
  have hunit : ('s', 1000) ∈ Duration.wholeUnits := by decide
  obtain ⟨hsuccess, herrors⟩ := evaluate_wholeSeconds (f := .certificateExpiration) (p := p) rfl hn
    hunit (by decide) .gt false
  have htext : Field.certificateExpiration.token ++ " " ++ Operator.gt.symbol ++ " " ++
      String.ofList ("009007199254740".toList ++ ['s']) =
        "[CERTIFICATE_EXPIRATION] > 009007199254740s" := by
    decide +kernel
  rw [htext] at hsuccess herrors
  refine ⟨hsuccess.mpr ?_, herrors⟩
  show ((9007199254740 * 1000 : Nat) : Int) < Duration.wholeMilliseconds ⟨9007199254740, 993000000⟩
  decide +kernel

end Rule
end HealthRules
