import Mathlib
import HealthRules.Proofs.Comparison.Symmetry
import HealthRules.Proofs.Evaluation.Record

/-!
# Alternatives

Beside any other operand, `any(...)` is the disjunction of its options: an operand is equal to it
if it is equal to one of the options, and different from it if it is different from all of them,
on whichever side it stands (`Rule.evaluate_anyOf`).

A rule for a single option reads it as a literal, which makes it a value with a kind before it is
compared. The options of a list get their kinds only when they are compared, always as the right
side. That the two agree on the other side, too, is the symmetry of equality.
-/

namespace HealthRules

/-! ## Comparands -/

/-- A literal as it is compared. -/
def Comparand.literal (text : String) : Comparand :=
  .value (some (Value.literal text))

/-- What is no list of alternatives lacks a value, or it is compared with each option as with a
literal. -/
theorem Comparand.equal?_anyOf {c : Comparand} (h : ∀ options, c ≠ .anyOf options) :
    c = .value none ∨ ∃ same : String → Bool, (∀ o, c.equal? (literal o) = some (same o)) ∧
      ∀ options, c.equal? (.anyOf options) = some (options.any same) := by
  cases c with
  | value v =>
    cases v with
    | none => exact .inl rfl
    | some v =>
      exact .inr ⟨fun o => v.isEqual (Value.literal o), fun o => rfl, fun options => rfl⟩
  | anyOf options => exact absurd rfl (h options)
  | pattern glob => exact .inr ⟨matchesGlob glob, fun o => rfl, fun options => rfl⟩

section Options

variable {c : Comparand} (h : ∀ options, c ≠ .anyOf options) {options : List String}

include h

theorem compareOperands_eq_anyOf_iff :
    compareOperands c (.anyOf options) .eq = .ok true ↔
      ∃ o ∈ options, compareOperands c (.literal o) .eq = .ok true := by
  rcases Comparand.equal?_anyOf h with rfl | ⟨same, hone, hall⟩
  · constructor
    · intro hholds
      exact absurd rfl (ne_missing_of_compareOperands hholds).1
    · rintro ⟨o, -, hholds⟩
      exact absurd rfl (ne_missing_of_compareOperands hholds).1
  · simp only [compareOperands_eq, hone, hall, Option.getD_some, Except.ok.injEq,
      List.any_eq_true]

/-- Without any option a missing value would be different from all of them. -/
theorem compareOperands_ne_anyOf_iff (hne : options ≠ []) :
    compareOperands c (.anyOf options) .ne = .ok true ↔
      ∀ o ∈ options, compareOperands c (.literal o) .ne = .ok true := by
  rcases Comparand.equal?_anyOf h with rfl | ⟨same, hone, hall⟩
  · obtain ⟨o, ho⟩ := List.exists_mem_of_ne_nil options hne
    constructor
    · intro hholds
      exact absurd rfl (ne_missing_of_compareOperands hholds).1
    · intro hholds
      exact absurd rfl (ne_missing_of_compareOperands (hholds o ho)).1
  · simp only [compareOperands_ne, hone, hall, Option.map_some, Option.getD_some,
      Except.ok.injEq, Bool.not_eq_true', List.any_eq_false, Bool.not_eq_true]

end Options

/-! ## Rules -/

/-- An operand that is no list of alternatives is not compared as one. -/
theorem Operand.comparand_ne_anyOf {x : Operand} (h : ∀ options, x.meaning ≠ .anyOf options)
    (p : Probe) (options : List String) : (x.comparand p).1 ≠ .anyOf options := by
  obtain ⟨text, meaning⟩ := x
  unfold comparand
  cases meaning with
  | field f => cases hf : f.resolve? p <;> simp [hf]
  | length f => cases hf : f.lengthOf? text p <;> simp [hf]
  | presence f | pattern glob | literal text => simp
  | anyOf others => exact absurd rfl (h others)

/-- The condition with the first operand on the left, or with the two exchanged. -/
def Condition.beside (x y : Operand) (op : Operator) (exchanged : Bool) : Condition :=
  if exchanged then ⟨y, op, x⟩ else ⟨x, op, y⟩

namespace Rule

/-- For an operator that asks for no order the place of the operands does not matter. -/
theorem success_beside_iff {r : Rule} {x y : Operand} {op : Operator} {exchanged : Bool}
    (h : Condition.ofText? r.body = some (.beside x y op exchanged)) (hop : op.isOrdering = false)
    (p : Probe) (redact : Bool) : (r.evaluate p redact).outcome.success = true ↔
      compareOperands (x.comparand p).1 (y.comparand p).1 op = .ok true := by
  rw [success_evaluate, passes_of_some h, Condition.holds_iff]
  cases exchanged with
  | false => exact Iff.rfl
  | true =>
    rw [← compareOperands_comm (x.comparand p).1 (y.comparand p).1 hop]
    exact Iff.rfl

/-- Alternatives beside another operand, which is none: equality with them passes exactly if
equality with one of the options does, as a literal, and inequality exactly if inequality with every
option does. It does not matter on which side they stand. -/
theorem evaluate_anyOf {x list : Operand} {options : List String}
    (hx : ∀ others, x.meaning ≠ .anyOf others) (hlist : list.meaning = .anyOf options)
    (exchanged : Bool) (p : Probe) (redact : Bool) (whole : Rule) (single : String → Rule) :
    (Condition.ofText? whole.body = some (.beside x list .eq exchanged) →
      (∀ o ∈ options,
        Condition.ofText? (single o).body = some (.beside x ⟨o, .literal o⟩ .eq exchanged)) →
      ((whole.evaluate p redact).outcome.success = true ↔
        ∃ o ∈ options, ((single o).evaluate p redact).outcome.success = true)) ∧
    (Condition.ofText? whole.body = some (.beside x list .ne exchanged) →
      (∀ o ∈ options,
        Condition.ofText? (single o).body = some (.beside x ⟨o, .literal o⟩ .ne exchanged)) →
      ((whole.evaluate p redact).outcome.success = true ↔
        ∀ o ∈ options, ((single o).evaluate p redact).outcome.success = true)) := by
  have hx' : ∀ others, (x.comparand p).1 ≠ .anyOf others := x.comparand_ne_anyOf hx p
  have hlist' : (list.comparand p).1 = .anyOf options := by
    rw [Operand.comparand, hlist]
  constructor
  · -- equality with one of the options
    intro hwhole hsingle
    rw [success_beside_iff hwhole rfl, hlist', compareOperands_eq_anyOf_iff hx']
    refine exists_congr fun o => and_congr_right fun ho => ?_
    rw [success_beside_iff (hsingle o ho) rfl]
    exact Iff.rfl
  · -- inequality with all of them
    intro hwhole hsingle
    have hwell := (Condition.wellFormed_of_ofText? hwhole).2
    have hmem : list ∈ [(Condition.beside x list .ne exchanged).left,
        (Condition.beside x list .ne exchanged).right] := by
      cases exchanged <;> simp [Condition.beside]
    -- a list of alternatives that was read has one at least, as the inequality needs
    have hne : options ≠ [] := by
      have hwritten := hwell.written hmem
      rw [hlist] at hwritten
      exact hwritten.options_ne_nil
    rw [success_beside_iff hwhole rfl, hlist', compareOperands_ne_anyOf_iff hx' hne]
    refine forall₂_congr fun o ho => ?_
    rw [success_beside_iff (hsingle o ho) rfl]
    exact Iff.rfl

/-- The field is written as milliseconds and one of the options as seconds. -/
theorem evaluate_anyOf_duration :
    let p := { Probe.empty with certificateExpiration := ⟨1, 0⟩ }
    (evaluate ⟨"any(2m, 1s) == [CERTIFICATE_EXPIRATION]"⟩ p false).outcome.success = true := by
  intro p
  have hwhole : Condition.ofText? (body ⟨"any(2m, 1s) == [CERTIFICATE_EXPIRATION]"⟩) =
      some (.beside ⟨"[CERTIFICATE_EXPIRATION]", .field .certificateExpiration⟩
        ⟨"any(2m, 1s)", .anyOf ["2m", "1s"]⟩ .eq true) := by
    decide +kernel
  have hsingle : ∀ o ∈ ["2m", "1s"],
      Condition.ofText? (body ⟨o ++ " == [CERTIFICATE_EXPIRATION]"⟩) =
        some (.beside ⟨"[CERTIFICATE_EXPIRATION]", .field .certificateExpiration⟩
          ⟨o, .literal o⟩ .eq true) := by
    decide +kernel
  have hx : ∀ others, (Meaning.field .certificateExpiration) ≠ .anyOf others := by
    intro others h
    cases h
  have hone : (evaluate ⟨"1s" ++ " == [CERTIFICATE_EXPIRATION]"⟩ p false).outcome.success =
      true := by
    decide +kernel
  exact ((evaluate_anyOf hx rfl true p false _
    fun o => ⟨o ++ " == [CERTIFICATE_EXPIRATION]"⟩).1 hwhole hsingle).mpr
      ⟨"1s", List.mem_pair.mpr (.inr rfl), hone⟩

end Rule
end HealthRules
