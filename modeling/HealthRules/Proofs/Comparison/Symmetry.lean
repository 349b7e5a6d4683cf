import Mathlib
import HealthRules.Proofs.Comparison.Operators
import HealthRules.Proofs.Result

/-!
# Exchanging the sides

It does not matter which operand stands on the left: the exchanged operands with the converse of
the operator get the same answer, or neither way there is one. And two values with one text are
equal, whatever their kinds (`compareOperands_mirror`).

All of it comes from the order of two values, which turns around when they are exchanged
(`Value.order?_swap`) and can only be equal for two values with one text
(`Value.order?_of_text_eq`). What decides values without an order is symmetric as well.
-/

namespace HealthRules

/-! ## Binary numbers -/

namespace Number.Binary64

theorem swap_cmp (x y : Binary64) : (x.cmp y).swap = y.cmp x :=
  Std.OrientedOrd.eq_swap.symm

theorem cmp_self (x : Binary64) : x.cmp x = .eq :=
  compare_eq_iff_eq.mpr rfl

end Number.Binary64

namespace Value

/-! ## The order of two values -/

/-- The order turns around with the two values. -/
theorem order?_swap (v w : Value) : w.order? v = (v.order? w).map Ordering.swap := by
  have hbinary : ∀ x y : Option Number.Binary64,
      (do let b ← y; let a ← x; return b.cmp a) =
        Option.map Ordering.swap (do let a ← x; let b ← y; return a.cmp b) := by
    intro x y
    rw [← bind_bind_comm x y fun a b => Number.Binary64.swap_cmp a b]
    cases x <;> cases y <;> rfl
  unfold order?
  rw [Bool.or_comm w.involvesDuration]
  split
  · exact hbinary _ _
  · cases Number.signed64? v.text.toList with
    | none => cases Number.signed64? w.text.toList <;> exact hbinary _ _
    | some n =>
      cases Number.signed64? w.text.toList with
      | none => exact hbinary _ _
      | some m => exact congrArg some Std.OrientedOrd.eq_swap

/-- Two values with one text are not apart in any order. -/
theorem order?_of_text_eq {v w : Value} (h : v.text = w.text) {o : Ordering}
    (ho : v.order? w = some o) : o = .eq := by
  have hmilliseconds : v.milliseconds? = w.milliseconds? := by
    unfold milliseconds?
    rw [h]
  unfold order? at ho
  split at ho
  · rw [hmilliseconds] at ho
    exact eq_of_bind_self Number.Binary64.cmp_self ho
  · rw [h] at ho
    cases hw : Number.signed64? w.text.toList with
    | none =>
      rw [hw] at ho
      exact eq_of_bind_self Number.Binary64.cmp_self ho
    | some n =>
      rw [hw] at ho
      exact (Option.some.inj ho).symm.trans (compare_eq_iff_eq.mpr rfl)

/-! ## Equal values -/

theorem sameBoolean?_comm (v w : Value) : v.sameBoolean? w = w.sameBoolean? v := by
  unfold sameBoolean?
  rw [bind_bind_comm _ _ fun a b => Bool.beq_comm]
  exact if_congr or_comm rfl rfl

theorem sameAddress?_comm (v w : Value) : v.sameAddress? w = w.sameAddress? v := by
  unfold sameAddress?
  rw [bind_bind_comm _ _ fun a b => BEq.comm]
  exact if_congr or_comm rfl rfl

/-- Each of the comparisons that may decide is symmetric, and so is which one decides. -/
theorem isEqual_comm (v w : Value) : v.isEqual w = w.isEqual v := by
  unfold isEqual
  rw [order?_swap v w, sameBoolean?_comm w v, sameAddress?_comm w v, BEq.comm (a := w.text)]
  cases v.order? w with
  | none => rfl
  | some o => cases o <;> rfl

theorem sameBoolean?_of_text_eq {v w : Value} (h : v.text = w.text) {same : Bool}
    (hsame : v.sameBoolean? w = some same) : same = true := by
  unfold sameBoolean? at hsame
  rw [h] at hsame
  split at hsame
  · exact eq_of_bind_self beq_self_eq_true hsame
  · cases hsame

theorem sameAddress?_of_text_eq {v w : Value} (h : v.text = w.text) {same : Bool}
    (hsame : v.sameAddress? w = some same) : same = true := by
  unfold sameAddress? at hsame
  rw [h] at hsame
  split at hsame
  · exact eq_of_bind_self beq_self_eq_true hsame
  · cases hsame

/-- Two values with one text are equal by whichever comparison decides. -/
theorem isEqual_of_text_eq {v w : Value} (h : v.text = w.text) : v.isEqual w = true := by
  unfold isEqual
  split
  · next o ho =>
    rw [order?_of_text_eq h ho]
    rfl
  · split
    · next same hsame => exact sameBoolean?_of_text_eq h hsame
    · cases haddress : v.sameAddress? w with
      | none => rw [Option.getD_none, h, beq_self_eq_true]
      | some same => rw [Option.getD_some, sameAddress?_of_text_eq h haddress]

end Value

/-! ## Exchanged comparands -/

/-- Alternatives and patterns match from either side. -/
theorem Comparand.equal?_comm (l r : Comparand) : l.equal? r = r.equal? l := by
  cases l with
  | value v =>
    cases r with
    | value w =>
      cases v with
      | none => cases w <;> rfl
      | some v =>
        cases w with
        | none => rfl
        | some w => exact congrArg some (v.isEqual_comm w)
    | anyOf _ | pattern _ => rfl
  | anyOf options =>
    cases r with
    | anyOf others => exact congrArg some BEq.comm
    | value _ | pattern _ => rfl
  | pattern glob =>
    cases r with
    | pattern other => exact congrArg some BEq.comm
    | value _ | anyOf _ => rfl

/-- The mismatch of the exchanged sides. -/
def Mismatch.converse : Mismatch → Mismatch
  | kinds op left right => kinds op.converse right left
  | notValues op => notValues op.converse

/-- Exchanged values answer the converse of an operator that asks for their order. -/
theorem compareValues_converse (v w : Option Value) {op : Operator} (hop : op.isOrdering = true) :
    compareValues w v op.converse = (compareValues v w op).mapError Mismatch.converse := by
  have hconverse : op.converse.isOrdering = true := by cases op <;> exact hop
  cases v with
  | none => rw [compareValues_of_missing (.inl rfl), compareValues_of_missing (.inr rfl)]; rfl
  | some v =>
    cases w with
    | none => rw [compareValues_of_missing (.inl rfl), compareValues_of_missing (.inr rfl)]; rfl
    | some w =>
      have hswap := v.order?_swap w
      cases ho : v.order? w with
      | none =>
        rw [ho] at hswap
        rw [compareValues_of_no_order hswap hconverse, compareValues_of_no_order ho hop]
        rfl
      | some o =>
        rw [ho] at hswap
        rw [compareValues_of_order hswap, compareValues_of_order ho, op.holds_converse_swap o]
        rfl

/-- An operator that asks for no order does not tell the sides apart. -/
theorem compareOperands_comm (l r : Comparand) {op : Operator} (hop : op.isOrdering = false) :
    compareOperands r l op = compareOperands l r op := by
  cases op with
  | eq => rw [compareOperands_eq, compareOperands_eq, l.equal?_comm r]
  | ne => rw [compareOperands_ne, compareOperands_ne, l.equal?_comm r]
  | le | ge | lt | gt => cases hop

/-- Exchanged sides have the answer of the converse operator, or its mismatch. -/
theorem compareOperands_converse (l r : Comparand) (op : Operator) :
    compareOperands r l op.converse = (compareOperands l r op).mapError Mismatch.converse := by
  cases op with
  | eq | ne => exact compareOperands_comm l r rfl
  | le | ge | lt | gt =>
    cases l with
    | value v =>
      cases r with
      | value w =>
        rw [compareOperands_value, compareOperands_value]
        exact compareValues_converse v w rfl
      | anyOf _ | pattern _ => rfl
    | anyOf _ | pattern _ => cases r <;> rfl

/-- Exchanging the sides turns an operator into its converse: both ways there is the same answer,
or both ways there is none, and the mismatch names the same two kinds. Two values with one text are
equal, and neither is less or greater if values of their kinds and text have an order. -/
theorem compareOperands_mirror :
    (∀ (l r : Comparand) (op : Operator),
      (∃ b, compareOperands l r op = .ok b ∧ compareOperands r l op.converse = .ok b) ∨
      ∃ m, compareOperands l r op = .error m ∧
        compareOperands r l op.converse = .error m.converse) ∧
    (∀ v w : Value, v.text = w.text →
      compareOperands (.value (some v)) (.value (some w)) .eq = .ok true ∧
      ((∀ op : Operator, op.isOrdering = true →
          compareOperands (.value (some v)) (.value (some w)) op =
            .error (.kinds op v.kind w.kind)) ∨
        compareOperands (.value (some v)) (.value (some w)) .lt = .ok false ∧
          compareOperands (.value (some v)) (.value (some w)) .gt = .ok false)) := by
  constructor
  · intro l r op
    have hconverse := compareOperands_converse l r op
    cases h : compareOperands l r op with
    | ok b =>
      rw [h] at hconverse
      exact .inl ⟨b, rfl, hconverse⟩
    | error m =>
      rw [h] at hconverse
      exact .inr ⟨m, rfl, hconverse⟩
  · -- two values with one text
    intro v w htext
    simp only [compareOperands_value]
    constructor
    · show Except.ok (v.isEqual w) = Except.ok true
      rw [Value.isEqual_of_text_eq htext]
    · cases ho : v.order? w with
      | none => exact .inl fun op hop => compareValues_of_no_order ho hop
      | some o =>
        have heq : o = .eq := Value.order?_of_text_eq htext ho
        rw [heq] at ho
        exact .inr ⟨compareValues_of_order ho .lt, compareValues_of_order ho .gt⟩

/-- One text that counts as a string once and as a duration once. -/
theorem compareOperands_mirror_text :
    (Value.mk "1h" .string).text = (Value.mk "1h" .duration).text ∧
    compareOperands (.value (some ⟨"1h", .string⟩)) (.value (some ⟨"1h", .duration⟩)) .eq =
      .ok true ∧
    compareOperands (.value (some ⟨"1h", .string⟩)) (.value (some ⟨"1h", .duration⟩)) .lt =
      .ok false := by
  obtain ⟨heq, hmismatch | ⟨hless, -⟩⟩ :=
    compareOperands_mirror.2 ⟨"1h", .string⟩ ⟨"1h", .duration⟩ rfl
  · -- the text reads as a duration, so the two have an order
    have horder : (Value.mk "1h" .string).order? ⟨"1h", .duration⟩ = some .eq := by
      decide +kernel
    have hmore := hmismatch .lt rfl
    rw [compareOperands_value, compareValues_of_order horder] at hmore
    cases hmore
  · exact ⟨rfl, heq, hless⟩

end HealthRules
