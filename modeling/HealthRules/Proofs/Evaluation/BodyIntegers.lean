import Mathlib
import HealthRules.Proofs.Duration.Literal
import HealthRules.Proofs.Evaluation.Record
import HealthRules.Proofs.Grammar.Condition
import HealthRules.Proofs.Json.Integer
import HealthRules.Proofs.Number.Rounding

/-!
# Comparing whole numbers of a body

A rule that compares a whole number of the body with a whole number never has an error
(`Rule.evaluate_memberRule`). Two numbers below 2 ^ 63 are compared as they are. As soon as one of
them is 2 ^ 63 or more both are rounded to binary numbers first, which keeps their order but can
make different numbers equal: the answers are those of exact arithmetic unless this happens.
-/

namespace HealthRules

open Number (ofInt)
open Number.Binary64 (nearest)
open Json (InRange memberText)

/-! ## Rounding and the operators -/

/-- Rounding leaves the answers alone unless it makes two different numbers equal. -/
theorem Operator.relates_nearest_iff {n m : Int} :
    (∀ op : Operator, op.Relates (nearest n) (nearest m) ↔ op.Relates n m) ↔
      (nearest n = nearest m → n = m) := by
  constructor
  · intro h
    exact (h .eq).mp
  · intro h op
    rw [← holds_compare_iff, ← holds_compare_iff, Number.Binary64.compare_nearest h]

/-- Numbers that are more than 2048 apart are not rounded to the same number. -/
theorem Json.InRange.nearest_ne {n m : Int} (hn : InRange n) (hm : InRange m)
    (h : 2048 < |n - m|) : nearest n ≠ nearest m := by
  obtain ⟨hnlow, hnhigh⟩ := hn
  obtain ⟨hmlow, hmhigh⟩ := hm
  have hnerror := Number.Binary64.nearest_error (n := n) (by omega)
  have hmerror := Number.Binary64.nearest_error (n := m) (by omega)
  have hapart := lt_abs.mp h
  omega

/-! ## The order of two numbers -/

/-- Only a text that reads as a duration has this kind. -/
theorem Kind.infer_ne_duration {cs : List Char} (h : Duration.literal? cs = none) :
    Kind.infer cs ≠ .duration := by
  unfold infer
  rw [h]
  split_ifs with hbool hsigned hbinary haddress hduration
  · decide
  · decide
  · decide
  · decide
  · exact absurd hduration (by decide)
  · decide

/-- The number as which `n` is compared with `m`. -/
def comparedAs (n m : Int) : Int :=
  if n < 2 ^ 63 ∧ m < 2 ^ 63 then n else nearest n

/-- Two numbers are compared as they are, or both rounded. -/
theorem Value.order?_ofInt {v w : Value} {n m : Int} (hv : v.text.toList = ofInt n)
    (hw : w.text.toList = ofInt m) (hvkind : v.kind ≠ .duration) (hwkind : w.kind ≠ .duration)
    (hn : InRange n) (hm : InRange m) :
    v.order? w = some (compare (comparedAs n m) (comparedAs m n)) := by
  obtain ⟨hnlow, hnhigh⟩ := hn
  obtain ⟨hmlow, hmhigh⟩ := hm
  have hinvolved : (v.involvesDuration || w.involvesDuration) = false := by
    unfold involvesDuration
    rw [hv, hw, Duration.literal?_ofInt, Duration.literal?_ofInt, beq_false_of_ne hvkind,
      beq_false_of_ne hwkind]
    rfl
  -- the bound from below holds for both, so only the upper one decides
  have hsigned : ∀ k : Int, -2 ^ 63 ≤ k →
      Number.signed64? (ofInt k) = if k < 2 ^ 63 then some k else none := by
    intro k hk
    rw [Number.signed64?_ofInt]
    exact if_congr (and_iff_right hk) rfl rfl
  have hvsigned := hsigned n hnlow
  have hwsigned := hsigned m hmlow
  rw [← hv] at hvsigned
  rw [← hw] at hwsigned
  unfold comparedAs
  by_cases hsmall : n < 2 ^ 63 ∧ m < 2 ^ 63
  · rw [if_pos hsmall.1] at hvsigned
    rw [if_pos hsmall.2] at hwsigned
    rw [if_pos hsmall, if_pos hsmall.symm, order?_of_signed hinvolved hvsigned hwsigned]
  · -- one of the two is too large, so both are rounded
    have hlarge : Number.signed64? v.text.toList = none ∨
        Number.signed64? w.text.toList = none := by
      rcases not_and_or.mp hsmall with hnlarge | hmlarge
      · exact .inl (by rw [hvsigned, if_neg hnlarge])
      · exact .inr (by rw [hwsigned, if_neg hmlarge])
    obtain ⟨x, hx, hxscaled⟩ := Number.binary64?_ofInt (n := n) (k := 64) (by omega) (by decide)
    obtain ⟨y, hy, hyscaled⟩ := Number.binary64?_ofInt (n := m) (k := 64) (by omega) (by decide)
    rw [← hv] at hx
    rw [← hw] at hy
    rw [if_neg hsmall, if_neg (fun h => hsmall h.symm), order?_of_binary hinvolved hlarge hx hy,
      Number.Binary64.cmp_of_scaled hxscaled hyscaled]

/-! ## The rule -/

/-- The operand that reads the member `k` of the body. -/
def memberOperand : Operand :=
  ⟨"[BODY].k", .field (.body [.key "k"])⟩

/-- The operand that is a whole number. -/
def integerOperand (m : Int) : Operand :=
  ⟨String.ofList (ofInt m), .literal (String.ofList (ofInt m))⟩

/-- The condition that compares the member `k` of the body with a whole number. -/
def memberCondition (op : Operator) (m : Int) : Condition :=
  ⟨memberOperand, op, integerOperand m⟩

/-- The rule that is written so. -/
def memberRule (op : Operator) (m : Int) : Rule :=
  ⟨"[BODY].k" ++ " " ++ op.symbol ++ " " ++ String.ofList (ofInt m)⟩

theorem unspaced_memberOperand : memberOperand.Unspaced where
  ne_nil := by decide
  trimmed := by decide
  noSpace := by decide
  written := Meaning.ofText?_eq_some_iff.mp (by decide +kernel)

theorem unspaced_integerOperand (m : Int) : (integerOperand m).Unspaced := by
  refine Operand.unspaced_literal (Number.ofInt_ne_nil m) fun c hc =>
    ⟨Number.isBlank_of_mem_ofInt hc, ?_, ?_⟩
  · rintro rfl
    exact Number.not_mem_ofInt m (by decide) (by decide) hc
  · rintro rfl
    exact Number.not_mem_ofInt m (by decide) (by decide) hc

theorem ofText?_body_memberRule (op : Operator) (m : Int) :
    Condition.ofText? (memberRule op m).body = some (memberCondition op m) := by
  have horderable : op.isOrdering = true → memberOperand.meaning.isOrderable = true ∧
      (integerOperand m).meaning.isOrderable = true := fun _ => ⟨rfl, rfl⟩
  exact Rule.ofText?_body_unspaced unspaced_memberOperand (unspaced_integerOperand m) op horderable

/-! ## Its answer -/

variable {p : Probe} {n m : Int}

/-- The member `k` of a body that has a whole number there. -/
theorem resolve?_member (hn : InRange n) (hbody : p.body = Text.Utf8.encode (memberText n)) :
    (Field.body [.key "k"]).resolve? p = .ok ⟨String.ofList (ofInt n), .integer⟩ := by
  have hread := Json.ofBytes?_memberText hn
  rw [← hbody] at hread
  show Field.bodyAt? [.key "k"] p.body = _
  unfold Field.bodyAt?
  rw [hread]
  rfl

theorem comparand_memberOperand (hn : InRange n)
    (hbody : p.body = Text.Utf8.encode (memberText n)) :
    memberOperand.comparand p = (.value (some ⟨String.ofList (ofInt n), .integer⟩), []) := by
  unfold Operand.comparand memberOperand
  simp only [resolve?_member hn hbody]

theorem Value.order?_member (hn : InRange n) (hm : InRange m) :
    Value.order? ⟨String.ofList (ofInt n), .integer⟩ (Value.literal (String.ofList (ofInt m))) =
      some (compare (comparedAs n m) (comparedAs m n)) := by
  have hliteral : (Value.literal (String.ofList (ofInt m))).kind ≠ .duration := by
    unfold Value.literal
    rw [String.toList_ofList]
    exact Kind.infer_ne_duration (Duration.literal?_ofInt m)
  have hmember : Kind.integer ≠ .duration := by decide
  exact Value.order?_ofInt String.toList_ofList String.toList_ofList hmember hliteral hn hm

namespace Rule

theorem evaluate_memberRule_compare (op : Operator) (hn : InRange n) (hm : InRange m)
    (hbody : p.body = Text.Utf8.encode (memberText n)) (redact : Bool) :
    (((memberRule op m).evaluate p redact).outcome.success = true ↔
        op.Relates (comparedAs n m) (comparedAs m n)) ∧
      ((memberRule op m).evaluate p redact).errors = [] := by
  have hleft : ((memberCondition op m).left.comparand p).1 =
      .value (some ⟨String.ofList (ofInt n), .integer⟩) :=
    congrArg Prod.fst (comparand_memberOperand hn hbody)
  exact evaluate_of_compare (ofText?_body_memberRule op m) hleft rfl
    (Value.order?_member hn hm) redact

/-- The rule that compares the member `k` of the body with a whole number never has an error. If
both numbers are below 2 ^ 63 its answer is the relation between them, otherwise the relation
between the binary numbers nearest to them. So all operators answer as exact arithmetic does if
both numbers are below 2 ^ 63, and otherwise exactly if two different numbers are not rounded to
the same one; they never are if they are more than 2048 apart. -/
theorem evaluate_memberRule (hn : InRange n) (hm : InRange m)
    (hbody : p.body = Text.Utf8.encode (memberText n)) (redact : Bool) :
    let success := fun op => ((memberRule op m).evaluate p redact).outcome.success
    (∀ op, ((memberRule op m).evaluate p redact).errors = []) ∧
    (n < 2 ^ 63 ∧ m < 2 ^ 63 → ∀ op, success op = true ↔ op.Relates n m) ∧
    (¬ (n < 2 ^ 63 ∧ m < 2 ^ 63) →
      (∀ op, success op = true ↔ op.Relates (nearest n) (nearest m)) ∧
      ((∀ op, success op = true ↔ op.Relates n m) ↔ (nearest n = nearest m → n = m)) ∧
      (2048 < |n - m| → ∀ op, success op = true ↔ op.Relates n m)) := by
  intro success
  have hsuccess : ∀ op, success op = true ↔ op.Relates (comparedAs n m) (comparedAs m n) :=
    fun op => (evaluate_memberRule_compare op hn hm hbody redact).1
  -- what is left is about `comparedAs` alone
  refine ⟨fun op => (evaluate_memberRule_compare op hn hm hbody redact).2, ?_, ?_⟩
  · intro hsmall op
    rw [hsuccess, comparedAs, comparedAs, if_pos hsmall, if_pos hsmall.symm]
  · intro hlarge
    have hrounded : ∀ op, success op = true ↔ op.Relates (nearest n) (nearest m) := by
      intro op
      rw [hsuccess, comparedAs, comparedAs, if_neg hlarge, if_neg (fun h => hlarge h.symm)]
    have hexact : (∀ op, success op = true ↔ op.Relates n m) ↔
        (nearest n = nearest m → n = m) := by
      rw [← Operator.relates_nearest_iff]
      exact forall_congr' fun op => by rw [hrounded op]
    exact ⟨hrounded, hexact, fun hfar => hexact.mpr fun heq => absurd heq (hn.nearest_ne hm hfar)⟩

/-- The two ends of the upper half of the range are told apart. -/
theorem evaluate_memberRule_upper_half :
    let p := { Probe.empty with body := Text.Utf8.encode (memberText 18446744073709551615) }
    InRange 18446744073709551615 ∧ InRange 9223372036854775808 ∧
      ((memberRule .gt 9223372036854775808).evaluate p false).errors = [] ∧
      ((memberRule .gt 9223372036854775808).evaluate p false).outcome.success = true := by
  intro p
  have hn : InRange 18446744073709551615 := ⟨by norm_num, by norm_num⟩
  have hm : InRange 9223372036854775808 := ⟨by norm_num, by norm_num⟩
  obtain ⟨herrors, -, hlarge⟩ := evaluate_memberRule (p := p) hn hm rfl false
  obtain ⟨-, -, hfar⟩ := hlarge (by norm_num)
  have hrelates : Operator.gt.Relates 18446744073709551615 9223372036854775808 := by
    show (9223372036854775808 : Int) < 18446744073709551615
    norm_num
  have hapart : (2048 : Int) < |18446744073709551615 - 9223372036854775808| := by norm_num
  exact ⟨hn, hm, herrors .gt, (hfar hapart .gt).mpr hrelates⟩

/-- The greatest number of the range passes for the one below it. -/
theorem evaluate_greatest_number :
    let p := { Probe.empty with
      body := Text.Utf8.encode "\x7b\"k\": 18446744073709551615\x7d".toList }
    (evaluate ⟨"[BODY].k == 18446744073709551614"⟩ p false).outcome.success = true ∧
      ¬ Operator.eq.Relates 18446744073709551615 18446744073709551614 := by
  refine ⟨by decide +kernel, ?_⟩
  show ¬ (18446744073709551615 : Int) = 18446744073709551614
  decide

end Rule
end HealthRules
