import Mathlib
import HealthRules.Comparison

/-!
# The six operators

All operators answer from one relation between the two comparands. For two values that have an
order it is this order (`compareValues_of_order`). In all other cases there is only equality, and
it is unknown exactly if a value is missing (`Comparand.equal?_eq_none_iff`). Together:
`compareOperands_views`. Between whole numbers an operator is `Operator.Relates`.
-/

namespace HealthRules

/-! ## Whole numbers -/

namespace Operator

/-- The relation between whole numbers that an operator stands for. -/
def Relates : Operator → Int → Int → Prop
  | eq, n, m => n = m
  | ne, n, m => n ≠ m
  | le, n, m => n ≤ m
  | ge, n, m => m ≤ n
  | lt, n, m => n < m
  | gt, n, m => m < n

/-- An operator holds of the order of two integers exactly if it holds of the integers. -/
theorem holds_compare_iff (op : Operator) (n m : Int) :
    op.holds (compare n m) = true ↔ op.Relates n m := by
  rcases lt_trichotomy n m with hlt | rfl | hgt
  · rw [compare_lt_iff_lt.mpr hlt]
    cases op <;> simp only [holds, Relates] <;> grind
  · rw [compare_eq_iff_eq.mpr rfl]
    cases op <;> simp only [holds, Relates] <;> grind
  · rw [compare_gt_iff_gt.mpr hgt]
    cases op <;> simp only [holds, Relates] <;> grind

end Operator

/-! ## Two values -/

namespace Value

variable {v w : Value}

theorem order?_of_signed (h : (v.involvesDuration || w.involvesDuration) = false) {n m : Int}
    (hv : Number.signed64? v.text.toList = some n) (hw : Number.signed64? w.text.toList = some m) :
    v.order? w = some (compare n m) := by
  unfold order?
  rw [h, if_neg Bool.false_ne_true, hv, hw]

theorem order?_of_binary (h : (v.involvesDuration || w.involvesDuration) = false)
    (hlarge : Number.signed64? v.text.toList = none ∨ Number.signed64? w.text.toList = none)
    {x y : Number.Binary64} (hv : Number.binary64? v.text.toList = some x)
    (hw : Number.binary64? w.text.toList = some y) : v.order? w = some (x.cmp y) := by
  unfold order?
  rw [h, if_neg Bool.false_ne_true, hv, hw]
  split
  · next hleft hright =>
    rw [hleft, hright] at hlarge
    exact absurd hlarge (by simp)
  · rfl

/-- What is neither a duration nor a number has no order. -/
theorem order?_of_not_number (hliteral : Duration.literal? v.text.toList = none)
    (hsigned : Number.signed64? v.text.toList = none)
    (hbinary : Number.binary64? v.text.toList = none) : v.order? w = none := by
  have hmilliseconds : v.milliseconds? = none := by
    rw [milliseconds?, hliteral]
    exact hbinary
  unfold order?
  split
  · rw [hmilliseconds]
    rfl
  · rw [hsigned, hbinary]
    rfl

end Value

theorem Value.isEqual_of_order {v w : Value} {o : Ordering} (h : v.order? w = some o) :
    v.isEqual w = (o == .eq) := by
  rw [isEqual, h]

/-- If two values have an order, every operator answers from it, equality included. -/
theorem compareValues_of_order {v w : Value} {o : Ordering} (h : v.order? w = some o)
    (op : Operator) : compareValues (some v) (some w) op = .ok (op.holds o) := by
  unfold compareValues
  cases op with
  | eq => simp only [Value.isEqual_of_order h, Operator.holds]
  | ne => simp only [Value.isEqual_of_order h, Operator.holds, bne]
  | le | ge | lt | gt => simp only [h]

/-- If two values have no order, no operator that asks for one has an answer. -/
theorem compareValues_of_no_order {v w : Value} (h : v.order? w = none) {op : Operator}
    (hop : op.isOrdering = true) :
    compareValues (some v) (some w) op = .error (.kinds op v.kind w.kind) := by
  unfold compareValues
  cases op with
  | eq | ne => exact absurd hop (by decide)
  | le | ge | lt | gt => simp only [h]

/-- Between two values that are neither ordered nor equal only `!=` holds. -/
theorem compareValues_of_apart {v w : Value} (h : v.order? w = none) (hne : v.isEqual w = false)
    (op : Operator) : compareValues (some v) (some w) op =
      if op.isOrdering then .error (.kinds op v.kind w.kind) else .ok (op == .ne) := by
  unfold compareValues
  cases op with
  | eq | ne => simp only [hne]; rfl
  | le | ge | lt | gt => simp only [h]; rfl

theorem compareValues_of_missing {v w : Option Value} (h : v = none ∨ w = none) (op : Operator) :
    compareValues v w op = .ok false := by
  rcases h with rfl | rfl
  · rfl
  · cases v <;> rfl

/-- Comparands that are values are compared as values. -/
theorem compareOperands_value (v w : Option Value) (op : Operator) :
    compareOperands (.value v) (.value w) op = compareValues v w op := by
  cases op <;> cases v <;> cases w <;> rfl

/-! ## Equality of comparands -/

namespace Comparand

/-- Only a missing value makes two comparands neither equal nor unequal. -/
theorem equal?_eq_none_iff {l r : Comparand} :
    l.equal? r = none ↔ l = .value none ∨ r = .value none := by
  cases l with
  | value v =>
    cases r with
    | value w => cases v <;> cases w <;> simp [equal?]
    | anyOf options => cases v <;> simp [equal?]
    | pattern glob => cases v <;> simp [equal?]
  | anyOf options =>
    cases r with
    | value w => cases w <;> simp [equal?]
    | anyOf others => simp [equal?]
    | pattern glob => simp [equal?]
  | pattern glob =>
    cases r with
    | value w => cases w <;> simp [equal?]
    | anyOf options => simp [equal?]
    | pattern other => simp [equal?]

end Comparand

theorem compareOperands_eq (l r : Comparand) :
    compareOperands l r .eq = .ok ((l.equal? r).getD false) := rfl

theorem compareOperands_ne (l r : Comparand) :
    compareOperands l r .ne = .ok (((l.equal? r).map (!·)).getD false) := rfl

/-! ## Comparands that fail -/

/-- An operator that holds has no missing value on either side. -/
theorem ne_missing_of_compareOperands {l r : Comparand} {op : Operator}
    (h : compareOperands l r op = .ok true) : l ≠ .value none ∧ r ≠ .value none := by
  rw [← not_or]
  intro hmissing
  have hequal : l.equal? r = none := Comparand.equal?_eq_none_iff.mpr hmissing
  cases op with
  | eq => rw [compareOperands_eq, hequal] at h; exact absurd h (by simp)
  | ne => rw [compareOperands_ne, hequal] at h; exact absurd h (by simp)
  | le | ge | lt | gt =>
    cases l with
    | value v =>
      cases r with
      | value w =>
        rw [Comparand.value.injEq, Comparand.value.injEq] at hmissing
        rw [compareOperands_value, compareValues_of_missing hmissing] at h
        exact absurd h (by simp)
      | anyOf _ | pattern _ => exact absurd h (by simp [compareOperands])
    | anyOf _ | pattern _ => exact absurd h (by simp [compareOperands])

/-- Only an operator that asks for an order can be without an answer. -/
theorem isOrdering_of_compareOperands_error {l r : Comparand} {op : Operator} {m : Mismatch}
    (h : compareOperands l r op = .error m) : op.isOrdering = true := by
  cases op with
  | eq | ne => exact absurd h (by simp [compareOperands])
  | le | ge | lt | gt => rfl

/-- Two values without an answer are both there, and the mismatch names their kinds. -/
theorem exists_of_compareValues_error {v w : Option Value} {op : Operator} {m : Mismatch}
    (h : compareValues v w op = .error m) :
    ∃ x y, v = some x ∧ w = some y ∧ m = .kinds op x.kind y.kind := by
  cases v with
  | none => exact absurd h (by simp [compareValues])
  | some x =>
    cases w with
    | none => exact absurd h (by simp [compareValues])
    | some y =>
      refine ⟨x, y, rfl, rfl, ?_⟩
      cases ho : x.order? y with
      | some o => rw [compareValues_of_order ho] at h; exact absurd h (by simp)
      | none =>
        have hop : op.isOrdering = true := by
          rw [← compareOperands_value] at h
          exact isOrdering_of_compareOperands_error h
        rw [compareValues_of_no_order ho hop, Except.error.injEq] at h
        exact h.symm

/-! ## One relation -/

/-- An order between two things is exactly one of less, equal and greater, and the other two
ordering operators weaken less and greater by equal. -/
theorem Operator.holds_views (o : Ordering) :
    [lt.holds o, eq.holds o, gt.holds o].count true = 1 ∧
      le.holds o = (lt.holds o || eq.holds o) ∧ ge.holds o = (gt.holds o || eq.holds o) := by
  cases o <;> decide

/-- The operators are views of one relation. (1) Values are compared as values. (2) A missing value
satisfies neither equality nor its negation, and beside another value no operator at all.
(3) Without a missing value the two negate each other. (4) For two values either no operator that
asks for an order has an answer, or exactly one of less, equal and greater holds, and the remaining
two operators are built from these. -/
theorem compareOperands_views (l r : Comparand) :
    (∀ v w, l = .value v → r = .value w →
      ∀ op, compareOperands l r op = compareValues v w op) ∧
    (l = .value none ∨ r = .value none →
      compareOperands l r .eq = .ok false ∧ compareOperands l r .ne = .ok false ∧
      ∀ v w, l = .value v → r = .value w → ∀ op, compareOperands l r op = .ok false) ∧
    (l ≠ .value none → r ≠ .value none →
      ∃ b, compareOperands l r .eq = .ok b ∧ compareOperands l r .ne = .ok (!b)) ∧
    (∀ v w, l = .value (some v) → r = .value (some w) →
      (∀ op : Operator, op.isOrdering = true →
        compareOperands l r op = .error (.kinds op v.kind w.kind)) ∨
      ∃ lt eq gt : Bool, compareOperands l r .lt = .ok lt ∧ compareOperands l r .eq = .ok eq ∧
        compareOperands l r .gt = .ok gt ∧ [lt, eq, gt].count true = 1 ∧
        compareOperands l r .le = .ok (lt || eq) ∧ compareOperands l r .ge = .ok (gt || eq)) := by
  refine ⟨?_, ?_, ?_, ?_⟩
  · intro v w hl hr op
    rw [hl, hr, compareOperands_value]
  · intro h
    have hnone : l.equal? r = none := Comparand.equal?_eq_none_iff.mpr h
    refine ⟨by rw [compareOperands_eq, hnone]; rfl, by rw [compareOperands_ne, hnone]; rfl, ?_⟩
    intro v w hl hr op
    rw [hl, hr, Comparand.value.injEq, Comparand.value.injEq] at h
    rw [hl, hr, compareOperands_value, compareValues_of_missing h]
  · intro hl hr
    have hsome : l.equal? r ≠ none := by
      rw [ne_eq, Comparand.equal?_eq_none_iff, not_or]
      exact ⟨hl, hr⟩
    obtain ⟨b, hb⟩ := Option.ne_none_iff_exists'.mp hsome
    refine ⟨b, ?_, ?_⟩
    · rw [compareOperands_eq, hb, Option.getD_some]
    · rw [compareOperands_ne, hb, Option.map_some, Option.getD_some]
  · intro v w hl hr
    rw [hl, hr]
    simp only [compareOperands_value]
    -- one order decides all six operators
    cases ho : v.order? w with
    | none => exact .inl fun op hop => compareValues_of_no_order ho hop
    | some o =>
      right
      obtain ⟨hone, hle, hge⟩ := Operator.holds_views o
      refine ⟨Operator.lt.holds o, Operator.eq.holds o, Operator.gt.holds o,
        ?_, ?_, ?_, hone, ?_, ?_⟩
      · exact compareValues_of_order ho .lt
      · exact compareValues_of_order ho .eq
      · exact compareValues_of_order ho .gt
      · rw [compareValues_of_order ho, hle]
      · rw [compareValues_of_order ho, hge]

/-- A missing value beside alternatives, a pattern beside alternatives, and two whole
numbers of different kinds. -/
theorem compareOperands_views_mixed :
    compareOperands (.value none) (.anyOf ["", "x"]) .ne = .ok false ∧
    (∃ b, compareOperands (.pattern "1*") (.anyOf ["10"]) .eq = .ok b ∧
      compareOperands (.pattern "1*") (.anyOf ["10"]) .ne = .ok (!b)) ∧
    ∃ eq : Bool,
      compareOperands (.value (some ⟨"10", .integer⟩)) (.value (some ⟨"+9", .string⟩)) .eq =
        .ok eq ∧
      compareOperands (.value (some ⟨"10", .integer⟩)) (.value (some ⟨"+9", .string⟩)) .le =
        .ok (false || eq) := by
  refine ⟨((compareOperands_views _ _).2.1 (.inl rfl)).2.1,
    (compareOperands_views _ _).2.2.1 (by simp) (by simp), ?_⟩
  have horder : Value.order? ⟨"10", .integer⟩ ⟨"+9", .string⟩ = some .gt := by decide +kernel
  have hless : compareOperands (.value (some ⟨"10", .integer⟩))
      (.value (some ⟨"+9", .string⟩)) .lt = .ok false := by
    rw [compareOperands_value, compareValues_of_order horder]
    rfl
  -- the two have an order, so the answers of part (4) are the ones built from it
  rcases (compareOperands_views (.value (some ⟨"10", .integer⟩))
      (.value (some ⟨"+9", .string⟩))).2.2.2 _ _ rfl rfl with
    herror | ⟨lt, eq, gt, hlt, heq, -, -, hle, -⟩
  · have hmismatch := herror .lt rfl
    rw [hless] at hmismatch
    exact absurd hmismatch (by simp)
  · rw [hless, Except.ok.injEq] at hlt
    rw [← hlt] at hle
    exact ⟨eq, heq, hle⟩

end HealthRules
