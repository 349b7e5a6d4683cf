import Mathlib
import HealthRules.Number.Shortest
import HealthRules.Proofs.Number.Rounding

/-!
# Bounds on the shortest decimal

The digits of the shortest decimal fit 64 bits, its exponent is small, and the decimal is not beyond
the upper end of what rounds to the number (`shortest_bounds`). That is all a reader of the decimal
needs to find a number again; the search need not even succeed for it, since without a decimal it
gives zero, which has no exponent (`shortest_zero`).
-/

namespace HealthRules.Number.Binary64

/-- The value of digits and an exponent of ten. -/
def decimalValue (d : Nat × Int) : ℚ :=
  d.1 * 10 ^ d.2

/-- The value of a count of units. -/
def unitsValue (units : Nat) : ℚ :=
  units / unitsPerOne

theorem unitsPerOne_pos' : (0 : ℚ) < unitsPerOne :=
  Nat.cast_pos.mpr unitsPerOne_pos

theorem unitsValue_nonneg (units : Nat) : 0 ≤ unitsValue units := by
  unfold unitsValue
  positivity

/-! ## Where the search begins -/

theorem pow_pred_length_le {n : Nat} (hn : 0 < n) : 10 ^ ((ofNat n).length - 1) ≤ n := by
  rcases Nat.eq_zero_or_pos ((ofNat n).length - 1) with hzero | hpos
  · rw [hzero]
    exact hn
  · rw [← Nat.not_lt, ← Nat.length_toDigits_le_iff (by decide) hpos]
    show ¬ (ofNat n).length ≤ _
    omega

theorem lt_pow_length (n : Nat) : n < 10 ^ (ofNat n).length :=
  (Nat.length_toDigits_le_iff (by decide) Nat.length_toDigits_pos).mp (Nat.le_refl _)

/-- A number is not beyond the power of ten at which the search begins. -/
theorem unitsValue_le_pow_leading {units : Nat} (h : units ≠ 0) :
    unitsValue units ≤ 10 ^ leading units := by
  have hpos := unitsPerOne_pos'
  unfold unitsValue leading
  rw [div_le_iff₀ hpos]
  split
  · have hlt : units < 10 ^ (ofNat (units / unitsPerOne)).length * unitsPerOne :=
      (Nat.div_lt_iff_lt_mul unitsPerOne_pos).mp (lt_pow_length _)
    rw [zpow_natCast]
    exact_mod_cast hlt.le
  · next hlt =>
    have hdiv : 0 < unitsPerOne / units := Nat.div_pos (by omega) (Nat.pos_of_ne_zero h)
    have hle : 10 ^ ((ofNat (unitsPerOne / units)).length - 1) * units ≤ unitsPerOne :=
      (Nat.le_div_iff_mul_le (Nat.pos_of_ne_zero h)).mp (pow_pred_length_le hdiv)
    have hlen : 0 < (ofNat (unitsPerOne / units)).length := Nat.length_toDigits_pos
    have hexp : -((ofNat (unitsPerOne / units)).length : ℤ) + 1 =
        -(((ofNat (unitsPerOne / units)).length - 1 : ℕ) : ℤ) := by
      omega
    rw [hexp, zpow_neg, zpow_natCast, inv_mul_eq_div, le_div_iff₀ (by positivity), mul_comm]
    exact_mod_cast hle

/-- The search begins at a power of ten of three digits. -/
theorem leading_bounds {units : Nat} (h : units < overflow) :
    -324 < leading units ∧ leading units ≤ 309 := by
  have hlength : ∀ {n k : Nat}, 0 < k → n < 10 ^ k → (ofNat n).length ≤ k := fun hk hn =>
    (Nat.length_toDigits_le_iff (by decide) hk).mpr hn
  have hposlen : ∀ n, 0 < (ofNat n).length := fun n => Nat.length_toDigits_pos
  unfold leading
  -- a number from one on is measured by its digits, a smaller one by those of its inverse
  split
  · have hlt : units / unitsPerOne < 10 ^ 309 := by
      have hpow : 2 ^ 1024 ≤ 10 ^ 309 := by decide +kernel
      rw [overflow_eq_mul] at h
      exact (Nat.div_lt_iff_lt_mul unitsPerOne_pos).mpr
        (lt_of_lt_of_le h (Nat.mul_le_mul_right unitsPerOne hpow))
    have := hlength (by decide) hlt
    have := hposlen (units / unitsPerOne)
    omega
  · have hlt : unitsPerOne / units < 10 ^ 324 := by
      have hpow : 2 ^ 1074 < 10 ^ 324 := by decide +kernel
      rw [← unitsPerOne_eq] at hpow
      exact lt_of_le_of_lt (Nat.div_le_self _ _) hpow
    have := hlength (by decide) hlt
    have := hposlen (unitsPerOne / units)
    omega

/-! ## What the search finds -/

theorem cast_pow_ten (k : Nat) : ((Nat.pow 10 k : Nat) : ℚ) = 10 ^ k := by
  have hpow : Nat.pow 10 k = 10 ^ k := rfl
  rw [hpow, Nat.cast_pow]
  rfl

/-- The neighbours of a number on a grid are not more than a step of the grid beyond it. -/
theorem neighbours_le (units : Nat) (e : ℤ) :
    ((neighbours units e).1 : ℚ) ≤ unitsValue units / 10 ^ e + 1 ∧
      ((neighbours units e).2 : ℚ) ≤ unitsValue units / 10 ^ e + 1 := by
  have hstep : ∀ num den : Nat, (num : ℚ) / den = unitsValue units / 10 ^ e →
      ∀ n ≤ num / den + 1, (n : ℚ) ≤ unitsValue units / 10 ^ e + 1 := by
    intro num den hquot n hn
    have hdiv : ((num / den : ℕ) : ℚ) ≤ (num : ℚ) / den := Nat.cast_div_le
    have hn' : (n : ℚ) ≤ ((num / den : ℕ) : ℚ) + 1 := by exact_mod_cast hn
    rw [← hquot]
    linarith
  -- a grid above one divides the units, one below it multiplies them
  cases e with
  | ofNat k =>
    have hquot : (units : ℚ) / ((unitsPerOne * Nat.pow 10 k : ℕ) : ℚ) =
        unitsValue units / 10 ^ (Int.ofNat k) := by
      rw [unitsValue, Int.ofNat_eq_natCast, zpow_natCast, div_div, Nat.cast_mul, cast_pow_ten]
    simp only [neighbours]
    split <;> exact ⟨hstep _ _ hquot _ (by omega), hstep _ _ hquot _ (by omega)⟩
  | negSucc k =>
    have hquot : ((units * Nat.pow 10 (k + 1) : ℕ) : ℚ) / (unitsPerOne : ℚ) =
        unitsValue units / 10 ^ (Int.negSucc k) := by
      rw [unitsValue, zpow_negSucc, div_inv_eq_mul, div_mul_eq_mul_div, Nat.cast_mul,
        cast_pow_ten]
    simp only [neighbours]
    split <;> exact ⟨hstep _ _ hquot _ (by omega), hstep _ _ hquot _ (by omega)⟩

/-- The upper end of what rounds to a count of units. -/
def upperEnd (units : Nat) : ℚ :=
  unitsValue (2 * units + gap units) / 2

/-- What lies between two ends is not beyond the upper one, whether or not the ends count. -/
theorem le_of_between {counts : Prop} [Decidable counts] {low high n : Nat}
    (h : (if counts then low ≤ n && n ≤ high else low < n && n < high) = true) : n ≤ high := by
  split at h <;> simp only [Bool.and_eq_true, decide_eq_true_eq] at h
  · exact h.2
  · exact Nat.le_of_lt h.2

/-- What rounds to a number is not beyond its upper end. -/
theorem decimalValue_le_of_roundsTo {units : Nat} {d : Nat × ℤ}
    (h : roundsTo units d.1 d.2 = true) : decimalValue d ≤ upperEnd units := by
  obtain ⟨digits, e⟩ := d
  have hpos := unitsPerOne_pos'
  have hupper : upperEnd units = ((4 * units + 2 * gap units : ℕ) : ℚ) / (4 * unitsPerOne) := by
    rw [upperEnd, unitsValue, div_div, div_eq_div_iff (by positivity) (by positivity)]
    push_cast
    ring
  rw [hupper, le_div_iff₀ (by positivity), decimalValue]
  -- the power of ten is a factor of the digits, or of the end that they are compared with
  cases e with
  | ofNat k =>
    have hle : digits * Nat.pow 10 k * unitsPerOne * 4 ≤ (4 * units + 2 * gap units) * 1 :=
      le_of_between h
    have hle' : (digits : ℚ) * 10 ^ k * unitsPerOne * 4 ≤ (4 * units + 2 * gap units : ℕ) := by
      rw [Nat.mul_one] at hle
      rw [← cast_pow_ten]
      exact_mod_cast hle
    rw [Int.ofNat_eq_natCast, zpow_natCast]
    linarith
  | negSucc k =>
    have hle : digits * unitsPerOne * 4 ≤ (4 * units + 2 * gap units) * Nat.pow 10 (k + 1) :=
      le_of_between h
    have hle' : (digits : ℚ) * unitsPerOne * 4 ≤
        (4 * units + 2 * gap units : ℕ) * 10 ^ (k + 1) := by
      rw [← cast_pow_ten]
      exact_mod_cast hle
    rw [zpow_negSucc, mul_assoc, mul_comm _ (4 * (unitsPerOne : ℚ)), ← mul_assoc,
      ← div_eq_mul_inv, div_le_iff₀ (by positivity)]
    linarith

/-- What the search finds rounds to the number, at a place that it has tried, and exceeds the number
by one at this place at most. -/
theorem search_eq_some {units n : Nat} {e : ℤ} {d : Nat × ℤ} (h : search units n e = some d) :
    roundsTo units d.1 d.2 = true ∧ e - n < d.2 ∧ d.2 ≤ e ∧
      (d.1 : ℚ) ≤ unitsValue units / 10 ^ d.2 + 1 := by
  induction n generalizing e with
  | zero => cases h
  | succ n ih =>
    have hnear := neighbours_le units e
    rw [search] at h
    dsimp only at h
    split_ifs at h with hround hround'
    · rw [Option.some.injEq] at h
      subst h
      exact ⟨hround, by dsimp only; omega, le_rfl, hnear.1⟩
    · rw [Option.some.injEq] at h
      subst h
      exact ⟨hround', by dsimp only; omega, le_rfl, hnear.2⟩
    · obtain ⟨hround, hlow, hhigh, hle⟩ := ih h
      exact ⟨hround, by omega, by omega, hle⟩

/-! ## Zeros at the end -/

/-- Taking zeros off the end moves them into the exponent, and the value stays. -/
theorem stripZeros_spec (n : Nat) (d : Nat × ℤ) :
    decimalValue (stripZeros n d) = decimalValue d ∧ (stripZeros n d).1 ≤ d.1 ∧
      d.2 ≤ (stripZeros n d).2 ∧ (stripZeros n d).2 ≤ d.2 + n := by
  induction n generalizing d with
  | zero => exact ⟨rfl, le_rfl, le_rfl, by rw [stripZeros]; omega⟩
  | succ n ih =>
    obtain ⟨digits, e⟩ := d
    rw [stripZeros]
    split
    · next hzero =>
      obtain ⟨hvalue, hdigits, hlow, hhigh⟩ := ih (digits / 10, e + 1)
      have hten : decimalValue (digits / 10, e + 1) = decimalValue (digits, e) := by
        have hmul : (digits : ℚ) = (digits / 10 : ℕ) * 10 := by
          exact_mod_cast (Nat.div_mul_cancel (Nat.dvd_of_mod_eq_zero hzero.2)).symm
        rw [decimalValue, decimalValue, hmul, zpow_add_one₀ (by norm_num)]
        ring
      refine ⟨hvalue.trans hten, hdigits.trans (Nat.div_le_self _ _), ?_, ?_⟩ <;>
        dsimp only at hlow hhigh ⊢ <;> omega
    · exact ⟨rfl, le_rfl, le_rfl, by dsimp only; omega⟩

/-! ## The shortest decimal -/

/-- The search tries 20 places from the leading digit on, so the digits that it finds fit 64 bits.
-/
theorem digits_search_le {units : Nat} (h : units ≠ 0) {d : Nat × ℤ}
    (hd : search units 20 (leading units) = some d) : d.1 ≤ maxUnsigned64 := by
  obtain ⟨-, hlow, -, hle⟩ := search_eq_some hd
  have hquot : unitsValue units / 10 ^ d.2 ≤ 10 ^ 19 := by
    rw [div_le_iff₀ (by positivity)]
    calc unitsValue units ≤ 10 ^ leading units := unitsValue_le_pow_leading h
      _ ≤ 10 ^ (19 + d.2) := zpow_le_zpow_right₀ (by norm_num) (by omega)
      _ = 10 ^ 19 * 10 ^ d.2 := zpow_add₀ (by norm_num) _ _
  have hmax : 10 ^ 19 + 1 ≤ maxUnsigned64 := by
    decide +kernel
  have hdigits : (d.1 : ℚ) ≤ ((10 ^ 19 + 1 : ℕ) : ℚ) := by
    push_cast
    linarith
  exact (Nat.cast_le.mp hdigits).trans hmax

/-- The digits of the shortest decimal fit 64 bits, its exponent has three digits at most, and it is
not beyond the upper end of what rounds to the number. -/
theorem shortest_bounds {units : Nat} (h : units ≠ 0) (hfinite : units < overflow) :
    decimalValue (shortest units) ≤ upperEnd units ∧ (shortest units).1 ≤ maxUnsigned64 ∧
      -400 < (shortest units).2 ∧ (shortest units).2 < 400 := by
  have hshortest : shortest units =
      stripZeros 20 ((search units 20 (leading units)).getD (0, 0)) := if_neg h
  obtain ⟨hlow, hhigh⟩ := leading_bounds hfinite
  rw [hshortest]
  cases hd : search units 20 (leading units) with
  | none =>
    -- zero stands where no digits are found, and it is within the bounds too
    obtain ⟨hvalue, hdigits, hexp, hexp'⟩ := stripZeros_spec 20 (0, 0)
    have hzero : decimalValue (0, 0) = 0 := by simp [decimalValue]
    have hupper : 0 ≤ upperEnd units := div_nonneg (unitsValue_nonneg _) (by norm_num)
    rw [Option.getD_none]
    refine ⟨by rw [hvalue, hzero]; exact hupper, hdigits.trans (Nat.zero_le _), ?_, ?_⟩ <;>
      dsimp only at hexp hexp' ⊢ <;> omega
  | some d =>
    obtain ⟨hround, hgrid, hgrid', -⟩ := search_eq_some hd
    obtain ⟨hvalue, hdigits, hexp, hexp'⟩ := stripZeros_spec 20 d
    rw [Option.getD_some]
    refine ⟨?_, hdigits.trans (digits_search_le h hd), by omega, by omega⟩
    rw [hvalue]
    exact decimalValue_le_of_roundsTo hround

/-! ## Zero -/

theorem gap_le_self {units : Nat} (h : units ≠ 0) : gap units ≤ units := by
  rw [gap_eq]
  exact (Nat.pow_le_pow_right (by decide) (Nat.sub_le _ _)).trans (Nat.log2_self_le h)

/-- Nothing but zero rounds to zero. -/
theorem roundsTo_zero {units : Nat} (h : units ≠ 0) (e : ℤ) : roundsTo units 0 e = false := by
  -- what rounds to the number begins above zero
  have hgap := gap_le_self h
  have hlow : 0 < (quarters units).1 := by
    rw [quarters]
    dsimp only
    split <;> omega
  have hpow : ∀ k, 0 < Nat.pow 10 k := fun k => Nat.pow_pos (by decide)
  rw [← Bool.not_eq_true]
  intro hround
  unfold roundsTo at hround
  cases e with
  | ofNat k =>
    simp only [Nat.zero_mul, Nat.mul_one] at hround
    split at hround <;> simp only [Bool.and_eq_true, decide_eq_true_eq] at hround <;> omega
  | negSucc k =>
    have hden := Nat.mul_pos hlow (hpow (k + 1))
    simp only [Nat.zero_mul] at hround
    split at hround <;> simp only [Bool.and_eq_true, decide_eq_true_eq] at hround <;> omega

/-- Only zeros are taken off, so digits other than zero stay so. -/
theorem stripZeros_ne_zero (n : Nat) {d : Nat × ℤ} (h : d.1 ≠ 0) : (stripZeros n d).1 ≠ 0 := by
  induction n generalizing d with
  | zero => exact h
  | succ n ih =>
    obtain ⟨digits, e⟩ := d
    rw [stripZeros]
    split
    · apply ih
      dsimp only
      omega
    · exact h

/-- If the digits are zero, so is the exponent. -/
theorem shortest_zero {units : Nat} (h : units ≠ 0) :
    (shortest units).1 ≠ 0 ∨ (shortest units).2 = 0 := by
  have hshortest : shortest units =
      stripZeros 20 ((search units 20 (leading units)).getD (0, 0)) := if_neg h
  rw [hshortest]
  cases hd : search units 20 (leading units) with
  | none => exact .inr rfl
  | some d =>
    obtain ⟨hround, -⟩ := search_eq_some hd
    refine .inl (stripZeros_ne_zero 20 ?_)
    intro hzero
    rw [Option.getD_some] at hzero
    rw [hzero, roundsTo_zero h] at hround
    exact absurd hround Bool.false_ne_true

end HealthRules.Number.Binary64
