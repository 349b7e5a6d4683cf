import Mathlib
import HealthRules.Number.Decimal
import HealthRules.Text.Blank

/-!
# The text of a whole number

`Number.ofInt` writes a minus if there is one, and then the fewest digits. From this the readers of
the project recognise it again: as a signed number of 64 bits if it is one
(`signed64?_ofInt`), and as a decimal number without point and exponent (`Decimal.ofText?_ofInt`).
-/

namespace HealthRules.Number

/-! ## Digits -/

theorem toNat_of_isDigit {c : Char} (h : c.isDigit = true) : 48 ≤ c.toNat ∧ c.toNat ≤ 57 :=
  Char.isDigit_iff_toNat.mp h

theorem toNat_of_isAlpha {c : Char} (h : c.isAlpha = true) :
    65 ≤ c.toNat ∧ c.toNat ≤ 90 ∨ 97 ≤ c.toNat ∧ c.toNat ≤ 122 := by
  have hval : c.val.toNat = c.toNat := rfl
  simp only [Char.isAlpha, Char.isUpper, Char.isLower, Bool.or_eq_true, Bool.and_eq_true,
    decide_eq_true_eq, ge_iff_le, UInt32.le_iff_toNat_le, hval] at h
  exact h

theorem isAlpha_of_isDigit {c : Char} (h : c.isDigit = true) : c.isAlpha = false := by
  have hrange := toNat_of_isDigit h
  rw [← Bool.not_eq_true]
  intro halpha
  have hletter := toNat_of_isAlpha halpha
  omega

/-- Above the space, ASCII has no white space. -/
theorem isBlank_of_ascii {c : Char} (h : 0x20 < c.toNat ∧ c.toNat < 0x80) :
    Text.isBlank c = false := by
  unfold Text.isBlank
  simp only [Bool.or_eq_false_iff, Bool.and_eq_false_iff, decide_eq_false_iff_not,
    beq_eq_false_iff_ne]
  omega

theorem isBlank_of_isDigit {c : Char} (h : c.isDigit = true) : Text.isBlank c = false := by
  have hrange := toNat_of_isDigit h
  exact isBlank_of_ascii (by omega)

theorem isBlank_of_isAlpha {c : Char} (h : c.isAlpha = true) : Text.isBlank c = false := by
  have hrange := toNat_of_isAlpha h
  exact isBlank_of_ascii (by omega)

theorem ofNat_ne_nil (n : Nat) : ofNat n ≠ [] :=
  Nat.toDigits_ne_nil

theorem isDigit_of_mem_ofNat {n : Nat} {c : Char} (h : c ∈ ofNat n) : c.isDigit = true :=
  Nat.isDigit_of_mem_toDigits (by decide) (by decide) h

theorem le_ofDigitChars (cs : List Char) (n : Nat) : n ≤ Nat.ofDigitChars 10 cs n := by
  induction cs generalizing n with
  | nil => exact Nat.le_refl n
  | cons c cs ih =>
    rw [Nat.ofDigitChars_cons]
    have h := ih (10 * n + (c.toNat - '0'.toNat))
    omega

theorem ofDigitChars_ofNat (n : Nat) : Nat.ofDigitChars 10 (ofNat n) 0 = n := by
  rw [ofNat, Nat.ofDigitChars_toDigits (by decide) (by decide)]

/-- A number other than zero is written without a zero in front. -/
theorem head?_ofNat_ne_zero {n : Nat} (h : 0 < n) : (ofNat n).head? ≠ some '0' := by
  induction n using Nat.strong_induction_on with
  | _ n ih =>
    unfold ofNat
    by_cases hn : n < 10
    · rw [Nat.toDigits_of_lt_base hn]
      interval_cases n <;> decide
    · -- the last digit comes off the end and leaves the head alone
      rw [Nat.toDigits_of_base_le (by decide) (by omega), List.head?_append_of_ne_nil]
      · exact ih (n / 10) (by omega) (by omega)
      · exact ofNat_ne_nil (n / 10)

/-- An integer is written as its magnitude behind a sign, which only a negative one has. -/
theorem ofInt_eq (n : Int) : ofInt n = (if n < 0 then ['-'] else []) ++ ofNat n.natAbs := by
  cases n with
  | ofNat n =>
    have hn : ¬ Int.ofNat n < 0 := Int.not_lt.mpr (Int.natCast_nonneg n)
    rw [if_neg hn, List.nil_append]
    rfl
  | negSucc n =>
    rw [if_pos (Int.negSucc_lt_zero n)]
    rfl

theorem ofInt_ne_nil (n : Int) : ofInt n ≠ [] := by
  rw [ofInt_eq]
  exact List.append_ne_nil_of_right_ne_nil _ (ofNat_ne_nil _)

/-- The text of a whole number holds digits and a minus only. -/
theorem eq_minus_or_isDigit_of_mem_ofInt {n : Int} {c : Char} (h : c ∈ ofInt n) :
    c = '-' ∨ c.isDigit = true := by
  rw [ofInt_eq] at h
  rcases List.mem_append.mp h with h | h
  · split at h
    · exact .inl (List.mem_singleton.mp h)
    · exact absurd h List.not_mem_nil
  · exact .inr (isDigit_of_mem_ofNat h)

/-- A character other than a digit and a minus is not in the text of a number. -/
theorem not_mem_ofInt (n : Int) {c : Char} (hminus : c ≠ '-') (hdigit : c.isDigit = false) :
    c ∉ ofInt n := by
  intro h
  rcases eq_minus_or_isDigit_of_mem_ofInt h with hc | hc
  · exact hminus hc
  · rw [hdigit] at hc
    exact absurd hc Bool.false_ne_true

/-- No character of an integer is blank, so trimming leaves it as it is. -/
theorem isBlank_of_mem_ofInt {n : Int} {c : Char} (h : c ∈ ofInt n) : Text.isBlank c = false := by
  rcases eq_minus_or_isDigit_of_mem_ofInt h with rfl | hdigit
  · decide
  · exact isBlank_of_isDigit hdigit

/-- An integer ends in a digit, so no unit is hidden at its end. -/
theorem getLast?_ofInt (n : Int) : ∃ c, (ofInt n).getLast? = some c ∧ c.isDigit = true := by
  refine ⟨(ofNat n.natAbs).getLast (ofNat_ne_nil _), ?_, ?_⟩
  · rw [ofInt_eq, List.getLast?_append_of_ne_nil _ (ofNat_ne_nil _),
      List.getLast?_eq_getLast_of_ne_nil]
  · exact isDigit_of_mem_ofNat (List.getLast_mem _)

/-! ## Numbers of a given width -/

theorem isDigit_of_mem_padded {width n : Nat} {c : Char} (h : c ∈ padded width n) :
    c.isDigit = true := by
  rcases List.mem_append.mp h with hzero | hdigit
  · rw [List.eq_of_mem_replicate hzero]
    rfl
  · exact isDigit_of_mem_ofNat hdigit

theorem padded_ne_nil (width n : Nat) : padded width n ≠ [] :=
  List.append_ne_nil_of_right_ne_nil _ (ofNat_ne_nil n)

/-- The zeros in front do not change the number that is read. -/
theorem ofDigitChars_padded (width n : Nat) : Nat.ofDigitChars 10 (padded width n) 0 = n := by
  unfold padded
  dsimp only
  rw [Nat.ofDigitChars_append, Nat.ofDigitChars_replicate_zero, Nat.mul_zero, ofDigitChars_ofNat]

/-- A number that fits is padded to exactly the width. -/
theorem length_padded {width n : Nat} (hwidth : 0 < width) (h : n < 10 ^ width) :
    (padded width n).length = width := by
  have hlength : (ofNat n).length ≤ width :=
    (Nat.length_toDigits_le_iff (by decide) hwidth).mpr h
  unfold padded
  dsimp only
  rw [List.length_append, List.length_replicate, Nat.sub_add_cancel hlength]

/-! ## Readers -/

/-- The sign of an integer comes off as it was put on. -/
theorem splitSign_ofInt (n : Int) : splitSign (ofInt n) = (decide (n < 0), ofNat n.natAbs) := by
  rw [ofInt_eq]
  split
  · next h => rw [decide_eq_true h]; rfl
  · next h =>
    rw [decide_eq_false h, List.nil_append]
    -- without a minus the text starts with a digit
    have hdigit := fun c (hc : c ∈ ofNat n.natAbs) => isDigit_of_mem_ofNat hc
    unfold splitSign
    split
    · next heq => exact absurd (hdigit '+' (heq ▸ List.mem_cons_self)) (by decide)
    · next heq => exact absurd (hdigit '-' (heq ▸ List.mem_cons_self)) (by decide)
    · rfl

/-- An integer in decimal is read back exactly if it has 64 bits. -/
theorem signed64?_ofInt (n : Int) :
    signed64? (ofInt n) = if -2 ^ 63 ≤ n ∧ n < 2 ^ 63 then some n else none := by
  have hpow : Nat.pow 2 63 = 2 ^ 63 := rfl
  unfold signed64?
  rw [splitSign_ofInt]
  dsimp only
  rw [natural?_ofNat, Option.bind_some, hpow]
  by_cases hneg : n < 0
  · have habs : -(n.natAbs : Int) = n := by omega
    rw [decide_eq_true hneg, if_pos rfl, habs]
    exact if_congr (by omega) rfl rfl
  · have habs : (n.natAbs : Int) = n := by omega
    rw [decide_eq_false hneg, if_neg Bool.false_ne_true, habs]
    exact if_congr (by omega) rfl rfl

/-- Digits without point and exponent are the number that they write. -/
theorem Decimal.magnitude?_of_natural? {negative : Bool} {cs : List Char} {n : Nat}
    (h : natural? cs = some n) : magnitude? negative cs = some ⟨negative, n, 0⟩ := by
  obtain ⟨hne, hall, rfl⟩ := natural?_eq_some_iff.mp h
  unfold magnitude?
  dsimp only
  rw [List.takeWhile_eq_self_iff.mpr hall, List.dropWhile_eq_nil_iff.mpr hall]
  simp only [List.append_nil, if_neg hne, exponent?, Option.map_some]
  rfl

/-- As a decimal an integer has no fraction and no exponent, however long it is. -/
theorem Decimal.ofText?_ofInt (n : Int) :
    ofText? (ofInt n) = some ⟨decide (n < 0), n.natAbs, 0⟩ := by
  unfold ofText?
  rw [splitSign_ofInt]
  exact magnitude?_of_natural? (natural?_ofNat n.natAbs)

/-! ## How many digits -/

/-- A number has no more digits than its successor says. -/
theorem length_ofNat_le (n : Nat) : (ofNat n).length ≤ n + 1 := by
  refine (Nat.length_toDigits_le_iff (by decide) (Nat.succ_pos n)).mpr ?_
  exact Nat.lt_trans (Nat.lt_succ_self n) (Nat.lt_pow_self (by decide))

/-- Every number of 64 bits has twenty digits at most. -/
theorem length_ofNat_of_le {n : Nat} (h : n ≤ maxUnsigned64) : (ofNat n).length ≤ 20 := by
  have hmax : maxUnsigned64 < 10 ^ 20 := by decide +kernel
  exact (Nat.length_toDigits_le_iff (by decide) (by decide)).mpr (h.trans_lt hmax)

end HealthRules.Number
