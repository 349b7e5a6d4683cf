import Mathlib
import HealthRules.Proofs.Comparison.Literals
import HealthRules.Proofs.Duration.Milliseconds
import HealthRules.Proofs.Evaluation.BodyIntegers
import HealthRules.Proofs.Evaluation.Durations

/-!
# Comparing the response time with milliseconds

The response time is written as its whole milliseconds, and a literal such as `1500ms` is compared
by the milliseconds that arithmetic in seconds gives for it. `Rule.evaluate_milliseconds` says what
a rule with such a literal answers, beside the rule with the plain number: the same for every
other response time, since the literal stays within one millisecond, and for its own exactly if
no bit was lost. A literal of more nanoseconds than 64 bits hold is a text like any other, and has
no order.
-/

namespace HealthRules

open Number (maxUnsigned64 natural? ofNat)
open Number.Binary64 (nearest nearestNat)
open Duration (ofMilliseconds roundedMilliseconds)

/-! ## Literals of milliseconds -/

namespace Duration

variable {n : Nat}

/-- A number of milliseconds as a literal. -/
def millisecondsText (n : Nat) : List Char :=
  ofNat n ++ ['m', 's']

theorem ofName?_ms : TimeUnit.ofName? ['m', 's'] = some .millisecond := by
  decide +kernel

theorem literal?_millisecondsText (h : n * 1000000 ≤ maxUnsigned64) :
    literal? (millisecondsText n) = some (ofMilliseconds n) := by
  have hfit : n ≤ maxUnsigned64 := (Nat.le_mul_of_pos_right n (by decide)).trans h
  have hquot : n * 0 + n * 1000000 / nanosPerSecond = n / 1000 := by
    rw [nanosPerSecond]
    omega
  have hseconds : fit? (n / 1000) = some (n / 1000) := if_pos ((Nat.div_le_self n 1000).trans hfit)
  rw [millisecondsText, literal?_span (Number.natural?_ofNat n) hfit ofName?_ms h]
  have hnanos : Fin.ofNat 1000000000 (n * 1000000) = (ofMilliseconds n).nanoseconds :=
    Fin.ext (Nat.mul_mod_mul_right 1000000 n 1000)
  show ofParts? (n * 0) (n * 1000000) = _
  rw [ofParts?, hquot, hseconds, Option.map_some, hnanos]
  rfl

/-- Milliseconds whose nanoseconds do not fit are no duration. -/
theorem literal?_millisecondsText_overflow (hn : n ≤ maxUnsigned64)
    (h : maxUnsigned64 < n * 1000000) : literal? (millisecondsText n) = none := by
  have hword := TimeUnit.isName_of_ofName? ofName?_ms
  have hseconds : fit? (n * 0) = some (n * 0) := if_pos (Nat.zero_le _)
  have hnanos : fit? (n * 1000000) = none := if_neg (Nat.not_le_of_lt h)
  have hread : ofText? (millisecondsText n) = none := by
    rw [millisecondsText, ofText?_span (Number.natural?_ofNat n) hn hword.ne_nil hword.chars,
      addSpan?_none, ofName?_ms, Option.bind_some]
    show (fit? (n * 0)).bind (fun s => (fit? (n * 1000000)).bind _) = none
    rw [hseconds, hnanos]
    rfl
  unfold literal?
  rw [hread, ite_self]

/-- No other whole number of milliseconds changes its place. -/
theorem compare_roundedMilliseconds {m : Nat} (hn : n < 2 ^ 51) (hm : m ≠ n) :
    compare (nearest m * 2 ^ 62) (roundedMilliseconds n : Int) = compare (m : Int) n := by
  obtain ⟨hlow, hhigh⟩ := roundedMilliseconds_bounds hn
  rcases Nat.lt_or_gt_of_ne hm with hlt | hgt
  · have hself : nearest m = m := Number.Binary64.nearest_of_lt (by omega)
    rw [hself, compare_lt_iff_lt.mpr (by omega), compare_lt_iff_lt.mpr (by omega)]
  · -- the field may be rounded, but not below the next number
    have hnext : nearest (n + 1 : Nat) = (n + 1 : Nat) := Number.Binary64.nearest_of_lt (by omega)
    have hmono : nearest (n + 1 : Nat) ≤ nearest m := Number.Binary64.nearest_mono (by omega)
    rw [hnext] at hmono
    rw [compare_gt_iff_gt.mpr (by omega), compare_gt_iff_gt.mpr (by omega)]

end Duration

theorem Operator.relates_roundedMilliseconds {m n : Nat} (hn : n < 2 ^ 51) (op : Operator) :
    op.Relates (nearest m * 2 ^ 62) (roundedMilliseconds n) ↔
      if m = n then op.Relates (n * 2 ^ 62) (roundedMilliseconds n) else op.Relates m n := by
  by_cases heq : m = n
  · have hself : nearest m = m := Number.Binary64.nearest_of_lt (by omega)
    rw [if_pos heq, hself, heq]
  · rw [if_neg heq, ← holds_compare_iff, Duration.compare_roundedMilliseconds hn heq,
      holds_compare_iff]

theorem Operator.relates_self_iff (op : Operator) (i j : Int) :
    op.Relates i i ↔ op.Relates j j := by
  cases op <;> simp [Relates]

/-! ## Texts that read as nothing -/

section Text

variable (n : Nat)

theorem Number.binary64?_millisecondsText : binary64? (Duration.millisecondsText n) = none := by
  rw [Option.eq_none_iff_forall_ne_some]
  intro x hx
  -- a number does not end with a letter
  have hlast : (Duration.millisecondsText n).getLast?.any Char.isAlpha = false :=
    unlettered_of_binary64? hx
  rw [Duration.millisecondsText, List.getLast?_append_of_ne_nil _ (by decide)] at hlast
  exact absurd hlast (by decide)

/-- A number with letters behind it is no number, no address and no truth value. -/
theorem Kind.infer_millisecondsText
    (h : Duration.literal? (Duration.millisecondsText n) = none) :
    Kind.infer (Duration.millisecondsText n) = .string := by
  have hmem : ∀ c, c.isDigit = false → c ≠ 'm' → c ≠ 's' → c ∉ Duration.millisecondsText n := by
    intro c hdigit hm hs hc
    rcases List.mem_append.mp hc with hnumber | hunit
    · rw [Number.isDigit_of_mem_ofNat hnumber] at hdigit
      exact absurd hdigit (by decide)
    · simp [hm, hs] at hunit
  -- a text that no class reads is a string
  apply LiteralClass.infer_of_unread
  intro a ha
  cases a with
  | truth =>
    have he : 'e' ∈ Duration.millisecondsText n := by
      rcases of_decide_eq_true ha with heq | heq <;> rw [heq] <;> decide
    exact hmem 'e' (by decide) (by decide) (by decide) he
  | number =>
    rw [LiteralClass.reads, Number.binary64?_millisecondsText] at ha
    cases ha
  | address =>
    have haddress := IpAddress.ofText?_eq_none (hmem '.' (by decide) (by decide) (by decide))
      (hmem ':' (by decide) (by decide) (by decide))
    rw [LiteralClass.reads, haddress] at ha
    cases ha
  | duration =>
    rw [LiteralClass.reads, h] at ha
    cases ha

end Text

namespace Value

variable {v w : Value} {m n : Nat}

/-- The response time beside a literal of milliseconds. -/
theorem order?_millisecondsText {k : Nat} (hv : v.text.toList = ofNat m) (hm : m < 2 ^ k)
    (hk : k < 1024) (hw : w.text.toList = Duration.millisecondsText n)
    (hn : n * 1000000 ≤ maxUnsigned64) :
    v.order? w = some (compare (nearest m * 2 ^ 62) (roundedMilliseconds n : Int)) := by
  have hliteral := Duration.literal?_millisecondsText hn
  rw [← hw] at hliteral
  have hsmall : n < 2 ^ 53 := by
    have hmax : maxUnsigned64 = 2 ^ 64 - 1 := rfl
    omega
  obtain ⟨x, hscaled, horder⟩ := order?_of_literal hv hm hk hliteral
  rw [horder, Duration.milliseconds_ofMilliseconds hsmall,
    Number.Binary64.cmp_ofPlaces hscaled]

/-- The response time beside a plain number of 53 bits. -/
theorem order?_ofNat {k : Nat} (hv : v.text.toList = ofNat m) (hm : m < 2 ^ k) (hk : k < 1024)
    (hvkind : v.kind ≠ .duration) (hw : w.text.toList = ofNat n) (hwkind : w.kind ≠ .duration)
    (hn : n < 2 ^ 53) : v.order? w = some (compare (m : Int) n) := by
  have hv' : v.text.toList = Number.ofInt m := hv
  have hw' : w.text.toList = Number.ofInt n := hw
  have hinvolved : (v.involvesDuration || w.involvesDuration) = false := by
    unfold involvesDuration
    rw [hv', hw', Duration.literal?_ofInt, Duration.literal?_ofInt, beq_false_of_ne hvkind,
      beq_false_of_ne hwkind]
    rfl
  have hright := Number.signed64?_ofInt n
  rw [← hw', if_pos (by omega)] at hright
  have hleft := Number.signed64?_ofInt m
  rw [← hv'] at hleft
  by_cases hsmall : m < 2 ^ 63
  · rw [if_pos (by omega)] at hleft
    exact order?_of_signed hinvolved hleft hright
  · -- the response time is rounded, and stays apart from the number
    rw [if_neg (by omega)] at hleft
    obtain ⟨x, hx, hxscaled⟩ := Number.binary64?_ofInt (n := m) hm hk
    obtain ⟨y, hy, hyscaled⟩ := Number.binary64?_ofInt (n := n) (k := 53) (by omega) (by decide)
    rw [← hv'] at hx
    rw [← hw'] at hy
    rw [order?_of_binary hinvolved (.inl hleft) hx hy,
      Number.Binary64.cmp_of_scaled hxscaled hyscaled, Number.Binary64.compare_nearest]
    exact Number.Binary64.eq_of_nearest_eq (by omega)

/-- The response time beside milliseconds that are no duration. -/
theorem order?_overflow (hw : w.text.toList = Duration.millisecondsText n)
    (h : Duration.literal? (Duration.millisecondsText n) = none) : v.order? w = none := by
  have hnone : w.milliseconds? = none := by
    rw [milliseconds?, hw, h]
    exact Number.binary64?_millisecondsText n
  rw [← Option.not_isSome_iff_eq_none, isSome_order?, hnone]
  exact fun hboth => Bool.false_ne_true hboth.2

/-- A number and a text that have no order are equal as texts only. -/
theorem isEqual_of_no_order (h : v.order? w = none) (hv : v.kind = .integer)
    (hw : w.kind = .string) : v.isEqual w = (v.text == w.text) := by
  have hboolean : v.sameBoolean? w = none := by
    rw [sameBoolean?, hv, hw]
    rfl
  have haddress : v.sameAddress? w = none := by
    rw [sameAddress?, hv, hw]
    rfl
  rw [isEqual, h, hboolean, haddress]
  rfl

end Value

/-! ## The rule -/

namespace Rule

/-- The rule that compares the response time with a literal. -/
def responseTime (op : Operator) (literal : List Char) : Rule :=
  ⟨Field.responseTime.token ++ " " ++ op.symbol ++ " " ++ String.ofList literal⟩

variable {p : Probe} {n : Nat}

/-- The condition that it holds. -/
theorem ofText?_body_responseTime (op : Operator) {literal : List Char}
    (h : Operand.Unspaced ⟨String.ofList literal, .literal (String.ofList literal)⟩) :
    Condition.ofText? (responseTime op literal).body =
      some ⟨⟨Field.responseTime.token, .field .responseTime⟩, op,
        ⟨String.ofList literal, .literal (String.ofList literal)⟩⟩ :=
  ofText?_body_unspaced (Field.unspaced_duration (p := Probe.empty) rfl) h op fun _ => ⟨rfl, rfl⟩

theorem unspaced_millisecondsText (n : Nat) :
    Operand.Unspaced ⟨String.ofList (Duration.millisecondsText n),
      .literal (String.ofList (Duration.millisecondsText n))⟩ :=
  Duration.unspaced_span (Number.natural?_ofNat n) Duration.ofName?_ms

/-- The plain number. -/
theorem evaluate_plainMilliseconds (hn : n < 2 ^ 53) (op : Operator) (redact : Bool) :
    (((responseTime op (ofNat n)).evaluate p redact).outcome.success = true ↔
        op.Relates p.duration.wholeMilliseconds n) ∧
      ((responseTime op (ofNat n)).evaluate p redact).errors = [] := by
  have hunspaced : Operand.Unspaced
      ⟨String.ofList (ofNat n), .literal (String.ofList (ofNat n))⟩ := unspaced_integerOperand n
  have hread := ofText?_body_responseTime op hunspaced
  have hfield : Kind.integer ≠ .duration := by decide
  have hkind : (Value.literal (String.ofList (ofNat n))).kind ≠ .duration := by
    unfold Value.literal
    rw [String.toList_ofList]
    exact Kind.infer_ne_duration (Duration.literal?_ofInt n)
  have horder : (Field.ofNat p.duration.wholeMilliseconds .integer).order?
      (Value.literal (String.ofList (ofNat n))) =
        some (compare (p.duration.wholeMilliseconds : Int) n) :=
    Value.order?_ofNat String.toList_ofList p.duration.wholeMilliseconds_lt (by decide) hfield
      String.toList_ofList hkind hn
  exact evaluate_of_compare hread rfl rfl horder redact

/-- A literal that is a duration. -/
theorem evaluate_millisecondsText (hn : n * 1000000 ≤ maxUnsigned64) (op : Operator)
    (redact : Bool) :
    (((responseTime op (Duration.millisecondsText n)).evaluate p redact).outcome.success = true ↔
        op.Relates (nearest p.duration.wholeMilliseconds * 2 ^ 62) (roundedMilliseconds n)) ∧
      ((responseTime op (Duration.millisecondsText n)).evaluate p redact).errors = [] := by
  have hread := ofText?_body_responseTime op (unspaced_millisecondsText n)
  have horder : (Field.ofNat p.duration.wholeMilliseconds .integer).order?
      (Value.literal (String.ofList (Duration.millisecondsText n))) =
        some (compare (nearest p.duration.wholeMilliseconds * 2 ^ 62)
          (roundedMilliseconds n : Int)) :=
    Value.order?_millisecondsText String.toList_ofList p.duration.wholeMilliseconds_lt (by decide)
      String.toList_ofList hn
  exact evaluate_of_compare hread rfl rfl horder redact

/-- A literal that is no duration. -/
theorem evaluate_overflow (hn : n ≤ maxUnsigned64) (h : maxUnsigned64 < n * 1000000)
    (op : Operator) (redact : Bool) :
    (((responseTime op (Duration.millisecondsText n)).evaluate p redact).outcome.success = true ↔
        op = .ne) ∧
      ((responseTime op (Duration.millisecondsText n)).evaluate p redact).errors =
        if op.isOrdering then [.mismatch (.kinds op .integer .string)] else [] := by
  have hread := ofText?_body_responseTime op (unspaced_millisecondsText n)
  have hliteral := Duration.literal?_millisecondsText_overflow hn h
  have hkind : (Value.literal (String.ofList (Duration.millisecondsText n))).kind = .string := by
    unfold Value.literal
    rw [String.toList_ofList]
    exact Kind.infer_millisecondsText n hliteral
  have hnone : (Field.ofNat p.duration.wholeMilliseconds .integer).order?
      (Value.literal (String.ofList (Duration.millisecondsText n))) = none :=
    Value.order?_overflow String.toList_ofList hliteral
  -- the literal ends in a letter, which no number of milliseconds does
  have htext : (Field.ofNat p.duration.wholeMilliseconds .integer).text ≠
      (Value.literal (String.ofList (Duration.millisecondsText n))).text := by
    intro heq
    have hunit : 's' ∈ ofNat p.duration.wholeMilliseconds := by
      rw [String.ofList_injective heq, Duration.millisecondsText]
      simp
    exact absurd (Number.isDigit_of_mem_ofNat hunit) (by decide)
  have hequal : (Field.ofNat p.duration.wholeMilliseconds .integer).isEqual
      (Value.literal (String.ofList (Duration.millisecondsText n))) = false := by
    rw [Value.isEqual_of_no_order hnone rfl hkind]
    exact beq_false_of_ne htext
  have hcompare := compareValues_of_apart hnone hequal op
  rw [hkind] at hcompare
  by_cases hop : op.isOrdering = true
  · rw [if_pos hop] at hcompare ⊢
    obtain ⟨hsuccess, herrors⟩ := evaluate_of_mismatch hread rfl rfl hcompare redact
    refine ⟨?_, herrors⟩
    rw [hsuccess]
    exact iff_of_false Bool.false_ne_true (by rintro rfl; exact absurd hop (by decide))
  · rw [if_neg hop] at hcompare ⊢
    obtain ⟨hsuccess, herrors⟩ := evaluate_of_values hread rfl rfl hcompare redact
    rw [hsuccess, beq_iff_eq]
    exact ⟨Iff.rfl, herrors⟩

/-- A rule that compares the response time with `n` milliseconds, beside the rule that compares it
with the plain number. The plain number is compared exactly. The literal is, too, with every other
response time; with its own the answer is the one that the rounded milliseconds give, so that all
operators answer as beside the plain number exactly if nothing was lost. Nothing is below one
second and for multiples of 125. From 2 ^ 64 nanoseconds on the literal is a text, which differs
from every response time and has no order. -/
theorem evaluate_milliseconds (p : Probe) (hn : n < 2 ^ 53) (redact : Bool) :
    let m := p.duration.wholeMilliseconds
    let plain := fun op => responseTime op (ofNat n)
    let literal := fun op => responseTime op (Duration.millisecondsText n)
    (∀ op, (((plain op).evaluate p redact).outcome.success = true ↔ op.Relates m n) ∧
      ((plain op).evaluate p redact).errors = []) ∧
    (n * 1000000 ≤ maxUnsigned64 →
      (∀ op, ((literal op).evaluate p redact).errors = []) ∧
      (∀ op, ((literal op).evaluate p redact).outcome.success = true ↔
        if m = n then op.Relates (n * 2 ^ 62) (roundedMilliseconds n) else op.Relates m n) ∧
      ((∀ op, ((literal op).evaluate p redact).outcome.success =
          ((plain op).evaluate p redact).outcome.success) ↔
        (m = n → roundedMilliseconds n = n * 2 ^ 62)) ∧
      (n < 1000 ∨ 125 ∣ n → roundedMilliseconds n = n * 2 ^ 62)) ∧
    (maxUnsigned64 < n * 1000000 → ∀ op,
      (((literal op).evaluate p redact).outcome.success = true ↔ op = .ne) ∧
      ((literal op).evaluate p redact).errors =
        if op.isOrdering then [.mismatch (.kinds op .integer .string)] else []) := by
  dsimp only
  have hplain := fun op => evaluate_plainMilliseconds (p := p) hn op redact
  refine ⟨hplain, fun hsmall => ?_, fun hlarge op => ?_⟩
  · have hliteral := fun op => evaluate_millisecondsText (p := p) hsmall op redact
    have hsmaller : n < 2 ^ 51 := by
      have hmax : maxUnsigned64 = 2 ^ 64 - 1 := rfl
      omega
    have hrelates := fun op => (hliteral op).1.trans (op.relates_roundedMilliseconds hsmaller)
    refine ⟨fun op => (hliteral op).2, hrelates, ⟨fun hsame heq => ?_, fun hexact op => ?_⟩,
      Duration.roundedMilliseconds_exact hn⟩
    · -- the two answers for equality are enough
      have hequal := (hrelates .eq).mp (by rw [hsame .eq, (hplain .eq).1, heq]; rfl)
      rw [if_pos heq] at hequal
      have hvalue : (n * 2 ^ 62 : Int) = roundedMilliseconds n := hequal
      omega
    · rw [Bool.eq_iff_iff, hrelates, (hplain op).1]
      by_cases heq : p.duration.wholeMilliseconds = n
      · rw [if_pos heq, hexact heq, heq, Nat.cast_mul]
        exact op.relates_self_iff _ _
      · rw [if_neg heq]
  · have hfit : n ≤ maxUnsigned64 :=
      Nat.le_trans (show n ≤ 2 ^ 53 by omega) (by decide)
    exact evaluate_overflow hfit hlarge op redact

/-- One second and a half. -/
theorem evaluate_milliseconds_exact :
    let p := { Probe.empty with duration := ofMilliseconds 1500 }
    1500 < 2 ^ 53 ∧ (evaluate ⟨"[RESPONSE_TIME] == 1500ms"⟩ p false).outcome.success = true ∧
      (evaluate ⟨"[RESPONSE_TIME] == 1500ms"⟩ p false).errors = [] := by
  intro p
  have hn : 1500 < 2 ^ 53 := by decide
  obtain ⟨-, hliteral, -⟩ := evaluate_milliseconds p hn false
  obtain ⟨herrors, hsuccess, -, hexact⟩ := hliteral (by decide)
  have hbits : roundedMilliseconds 1500 = 1500 * 2 ^ 62 := hexact (.inr (by decide))
  have htext : responseTime .eq (Duration.millisecondsText 1500) =
      ⟨"[RESPONSE_TIME] == 1500ms"⟩ := by
    decide +kernel
  have hself : p.duration.wholeMilliseconds = 1500 := by
    decide +kernel
  have heq := (hsuccess .eq).mpr (by rw [if_pos hself, hbits]; rfl)
  have hnone := herrors .eq
  beta_reduce at heq hnone
  rw [htext] at heq hnone
  exact ⟨hn, heq, hnone⟩

/-- One second and a thousandth: the literal is below its own milliseconds. -/
theorem evaluate_milliseconds_inexact :
    let p := { Probe.empty with duration := ofMilliseconds 1001 }
    p.duration.wholeMilliseconds = 1001 ∧
      (evaluate ⟨"[RESPONSE_TIME] == 1001"⟩ p false).outcome.success = true ∧
      (evaluate ⟨"[RESPONSE_TIME] == 1001ms"⟩ p false).outcome.success = false := by
  decide +kernel

end Rule
end HealthRules
