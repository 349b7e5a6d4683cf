import Mathlib
import HealthRules.Proofs.Json.Digits
import HealthRules.Proofs.Number.Shortest

/-!
# Reading decimals back

Digits with an exponent of ten are printed in one of four forms, and each is read back as it stands
(`Numeral.read_printDecimal`): with zeros behind a point, as a whole number, with a point among the
digits, or with an exponent. Only the whole number gets one digit more, the zero behind its point.
-/

namespace HealthRules.Numeral

open Number (maxUnsigned64 ofNat)
open Text.Utf8 (encode)

/-! ## Digits with a point and with zeros -/

theorem drop_ne_nil {ds : List Char} {n : Nat} (h : n < ds.length) : ds.drop n ≠ [] := by
  rw [ne_eq, List.drop_eq_nil_iff]
  omega

theorem ofDigitChars_take_append_drop (digits n : Nat) :
    Nat.ofDigitChars 10 ((ofNat digits).take n ++ (ofNat digits).drop n) 0 = digits := by
  rw [List.take_append_drop, Number.ofDigitChars_ofNat]

/-- The letter in front of an exponent is no digit. -/
theorem noDigit_exponent (bytes : List UInt8) : NoDigit (0x65 :: bytes) := by
  show isDigit 0x65 = false
  decide

theorem pointed_of_lt {ds : List Char} {n : Nat} (h : n < ds.length) :
    pointed ds n = ds.take n ++ '.' :: ds.drop n := by
  rw [pointed, if_neg (drop_ne_nil h)]

theorem pointed_length (ds : List Char) : pointed ds ds.length = ds ++ ['.', '0'] := by
  rw [pointed, List.drop_length, if_pos rfl, List.take_length]

theorem Digits.take {ds : List Char} (h : Digits ds) {n : Nat} (hn : 0 < n) :
    Digits (ds.take n) where
  ne_nil := by
    rw [ne_eq, List.take_eq_nil_iff]
    exact fun hnil => hnil.elim (by omega) h.ne_nil
  all := fun c hc => h.all c (List.mem_of_mem_take hc)
  zero := by
    rw [List.head?_take, if_neg (by omega)]
    intro hzero
    rw [h.zero hzero, List.take_of_length_le (by exact hn)]

theorem Digits.append_zeros {ds : List Char} (h : Digits ds) {n : Nat}
    (hn : ds = ['0'] → n = 0) : Digits (ds ++ List.replicate n '0') where
  ne_nil := List.append_ne_nil_of_left_ne_nil h.ne_nil _
  all := by
    intro c hc
    rcases List.mem_append.mp hc with hc | hc
    · exact h.all c hc
    · rw [List.eq_of_mem_replicate hc]
      rfl
  zero := by
    rw [List.head?_append_of_ne_nil _ h.ne_nil]
    intro hzero
    have hds := h.zero hzero
    rw [hn hds, hds]
    rfl

/-- A whole decimal has a zero behind the point, which is read as one more digit. -/
theorem read_printDecimal_whole {digits : Nat} {exponent : Int}
    (hzero : digits ≠ 0 ∨ exponent = 0) (hexponent : 0 ≤ exponent)
    (hhigh : exponent + (ofNat digits).length - 1 ≤ 15) :
    ∃ significand ≤ maxUnsigned64, ∀ (negative : Bool) (rest : List UInt8), Ends rest →
      read negative (encode (printDecimal digits exponent) ++ rest) =
        finish negative significand (-1) rest := by
  have hds := digits_ofNat digits
  have hpos : 0 < (ofNat digits).length := List.length_pos_iff.mpr hds.ne_nil
  obtain ⟨zeros, rfl⟩ := Int.eq_ofNat_of_zero_le hexponent
  have hwhole : Digits (ofNat digits ++ List.replicate zeros '0') := by
    apply hds.append_zeros
    intro heq
    have hvalue := Number.ofDigitChars_ofNat digits
    rw [heq] at hvalue
    rcases hzero with hne | hzero
    · exact absurd hvalue.symm hne
    · exact Int.ofNat_eq_zero.mp hzero
  have hprint : printDecimal digits zeros =
      (ofNat digits ++ List.replicate zeros '0') ++ '.' :: ['0'] := by
    have hplaces : (zeros + (ofNat digits).length - 1 : Int).toNat + 1 =
        (ofNat digits ++ List.replicate zeros '0').length := by
      rw [List.length_append, List.length_replicate]
      omega
    rw [printDecimal]
    dsimp only
    rw [if_pos ⟨by omega, hhigh⟩, if_neg (by omega), Int.toNat_natCast, hplaces, pointed_length]
  have hread : Nat.ofDigitChars 10 ((ofNat digits ++ List.replicate zeros '0') ++ ['0']) 0 =
      10 * (10 ^ zeros * digits) := by
    rw [Nat.ofDigitChars_append, Nat.ofDigitChars_append, Number.ofDigitChars_ofNat,
      Nat.ofDigitChars_replicate_zero]
    rfl
  -- 16 places in front of the point and a zero behind it are 17 digits
  have hmax : 10 * (10 ^ zeros * digits) ≤ maxUnsigned64 := by
    have hlt := Number.Binary64.lt_pow_length digits
    have hten : 10 ^ 17 ≤ maxUnsigned64 := by decide +kernel
    calc 10 * (10 ^ zeros * digits) ≤ 10 * (10 ^ zeros * 10 ^ (ofNat digits).length) :=
          Nat.mul_le_mul_left _ (Nat.mul_le_mul_left _ hlt.le)
      _ = 10 ^ (1 + (zeros + (ofNat digits).length)) := by rw [pow_add, pow_add, pow_one]
      _ ≤ 10 ^ 17 := Nat.pow_le_pow_right (by decide) (by omega)
      _ ≤ maxUnsigned64 := hten
  refine ⟨_, hmax, ?_⟩
  intro negative rest h
  rw [hprint, read_point negative hwhole (List.cons_ne_nil _ _)
      (List.forall_mem_singleton.mpr rfl) (hread.trans_le hmax) h.noDigit, hread]
  exact readTail_of_ends negative _ _ h

/-- An exponent that is written with its sign is added to the places read before it. -/
theorem readExponent_leading (negative : Bool) (significand : Nat) (exponent : Int)
    {leading : Int} (hmax : leading.natAbs ≤ maxExponent) {rest : List UInt8}
    (h : NoDigit rest) :
    readExponent negative significand exponent
        (encode ((if leading < 0 then '-' else '+') :: ofNat leading.natAbs) ++ rest) =
      finish negative significand (exponent + leading) rest := by
  have hread := readExponent_digits negative significand exponent (decide (leading < 0)) hmax h
  have hsum : (if leading < 0 then exponent - leading.natAbs else exponent + leading.natAbs) =
      exponent + leading := by
    split <;> omega
  simp only [decide_eq_true_eq] at hread
  rw [hread, hsum]

section
variable {digits : Nat} {exponent : Int} (hdigits : digits ≤ maxUnsigned64) (negative : Bool)
  {rest : List UInt8} (h : Ends rest)
include hdigits h

/-- A decimal below one. -/
theorem read_printDecimal_small (hlow : -5 ≤ exponent + (ofNat digits).length - 1)
    (hhigh : exponent + (ofNat digits).length - 1 < 0) :
    read negative (encode (printDecimal digits exponent) ++ rest) =
      finish negative digits exponent rest := by
  have hall := (digits_ofNat digits).all
  have hvalue := Number.ofDigitChars_ofNat digits
  generalize hzeros : (-(exponent + (ofNat digits).length - 1) - 1).toNat = zeros
  have hprint : printDecimal digits exponent =
      ['0'] ++ '.' :: (List.replicate zeros '0' ++ ofNat digits) := by
    rw [printDecimal]
    dsimp only
    rw [if_pos ⟨hlow, by omega⟩, if_pos hhigh, hzeros]
    rfl
  have hfraction : ∀ c ∈ List.replicate zeros '0' ++ ofNat digits, c.isDigit = true := by
    intro c hc
    rcases List.mem_append.mp hc with hc | hc
    · rw [List.eq_of_mem_replicate hc]
      rfl
    · exact hall c hc
  have hread : Nat.ofDigitChars 10 (['0'] ++ (List.replicate zeros '0' ++ ofNat digits)) 0 =
      digits := by
    rw [Nat.ofDigitChars_append, Nat.ofDigitChars_append, Nat.ofDigitChars_replicate_zero]
    exact hvalue
  have hplaces : -((List.replicate zeros '0' ++ ofNat digits).length : Int) = exponent := by
    rw [List.length_append, List.length_replicate]
    omega
  have hne : List.replicate zeros '0' ++ ofNat digits ≠ [] :=
    List.append_ne_nil_of_right_ne_nil _ (Number.ofNat_ne_nil digits)
  rw [hprint, read_point negative digits_zero hne hfraction (hread.trans_le hdigits) h.noDigit,
    hread, hplaces, readTail_of_ends negative digits exponent h]

/-- A decimal with a point among its digits. -/
theorem read_printDecimal_point (hexponent : exponent < 0)
    (hlow : 0 ≤ exponent + (ofNat digits).length - 1)
    (hhigh : exponent + (ofNat digits).length - 1 ≤ 15) :
    read negative (encode (printDecimal digits exponent) ++ rest) =
      finish negative digits exponent rest := by
  have hds := digits_ofNat digits
  have hvalue := Number.ofDigitChars_ofNat digits
  generalize hplaces : (exponent + (ofNat digits).length - 1).toNat + 1 = n
  have hlt : n < (ofNat digits).length := by omega
  have hprint : printDecimal digits exponent =
      (ofNat digits).take n ++ '.' :: (ofNat digits).drop n := by
    have hzeros : exponent.toNat = 0 := by omega
    rw [printDecimal]
    dsimp only
    rw [if_pos ⟨by omega, hhigh⟩, if_neg (by omega), hplaces, hzeros, List.replicate_zero,
      List.append_nil, pointed_of_lt hlt]
  have hread := ofDigitChars_take_append_drop digits n
  have hfraction : -(((ofNat digits).drop n).length : Int) = exponent := by
    rw [List.length_drop]
    omega
  rw [hprint, read_point negative (hds.take (by omega)) (drop_ne_nil hlt)
      (fun c hc => hds.all c (List.mem_of_mem_drop hc)) (hread.trans_le hdigits) h.noDigit,
    hread, hfraction, readTail_of_ends negative digits exponent h]

/-- A decimal with an exponent. -/
theorem read_printDecimal_exponent (hlow : -400 < exponent) (hhigh : exponent < 400)
    (hlength : (ofNat digits).length ≤ 20)
    (hfar : ¬ (-5 ≤ exponent + (ofNat digits).length - 1 ∧
      exponent + (ofNat digits).length - 1 ≤ 15)) :
    read negative (encode (printDecimal digits exponent) ++ rest) =
      finish negative digits exponent rest := by
  have hds := digits_ofNat digits
  have hvalue := Number.ofDigitChars_ofNat digits
  have hpos : 0 < (ofNat digits).length := List.length_pos_iff.mpr hds.ne_nil
  generalize hleading : exponent + (ofNat digits).length - 1 = leading at hfar
  have hmax : leading.natAbs ≤ maxExponent := by
    have hmaxExponent : maxExponent = 2 ^ 31 - 1 := rfl
    omega
  -- a single digit is printed without a point
  by_cases hone : (ofNat digits).length = 1
  · have hprint : printDecimal digits exponent =
        ofNat digits ++ 'e' :: (if leading < 0 then '-' else '+') :: ofNat leading.natAbs := by
      rw [printDecimal]
      dsimp only
      rw [hleading, if_neg hfar, if_pos hone]
    have hplaces : 0 + leading = exponent := by omega
    rw [hprint, Text.Utf8.encode_append_cons_append (b := 0x65) (by decide),
      read_digits negative hds (hvalue.trans_le hdigits) (noDigit_exponent _), hvalue,
      readAfterInteger_exponent, readExponent_leading negative digits 0 hmax h.noDigit, hplaces]
  · have hlt : 1 < (ofNat digits).length := by omega
    have hprint : printDecimal digits exponent =
        ((ofNat digits).take 1 ++ '.' :: (ofNat digits).drop 1) ++
          'e' :: (if leading < 0 then '-' else '+') :: ofNat leading.natAbs := by
      rw [printDecimal]
      dsimp only
      rw [hleading, if_neg hfar, if_neg hone, pointed_of_lt hlt]
    have hread := ofDigitChars_take_append_drop digits 1
    have hplaces : -(((ofNat digits).drop 1).length : Int) + leading = exponent := by
      rw [List.length_drop]
      omega
    rw [hprint, Text.Utf8.encode_append_cons_append (b := 0x65) (by decide),
      read_point negative (hds.take Nat.one_pos) (drop_ne_nil hlt)
        (fun c hc => hds.all c (List.mem_of_mem_drop hc)) (hread.trans_le hdigits)
        (noDigit_exponent _),
      hread, readTail_exponent, readExponent_leading negative digits _ hmax h.noDigit, hplaces]

end

/-- The text of a decimal is read as the decimal, or as digits with a negative exponent. -/
theorem read_printDecimal {digits : Nat} {exponent : Int} (hdigits : digits ≤ maxUnsigned64)
    (hlow : -400 < exponent) (hhigh : exponent < 400) (hzero : digits ≠ 0 ∨ exponent = 0) :
    ∃ s e, s ≤ maxUnsigned64 ∧ (e < 0 ∨ s = digits ∧ e = exponent) ∧
      ∀ (negative : Bool) (rest : List UInt8), Ends rest →
        read negative (encode (printDecimal digits exponent) ++ rest) =
          finish negative s e rest := by
  have hlength : (ofNat digits).length ≤ 20 := by
    have hmax : maxUnsigned64 < 10 ^ 20 := by decide +kernel
    exact (Nat.length_toDigits_le_iff (by decide) (by decide)).mpr
      (Nat.lt_of_le_of_lt hdigits hmax)
  by_cases hplain : -5 ≤ exponent + (ofNat digits).length - 1 ∧
      exponent + (ofNat digits).length - 1 ≤ 15
  · obtain ⟨hleadingLow, hleadingHigh⟩ := hplain
    rcases Int.lt_or_le (exponent + (ofNat digits).length - 1) 0 with hsmall | hlarge
    · exact ⟨digits, exponent, hdigits, .inr ⟨rfl, rfl⟩, fun negative rest h =>
        read_printDecimal_small hdigits negative h hleadingLow hsmall⟩
    rcases Int.lt_or_le exponent 0 with hpoint | hwhole
    · exact ⟨digits, exponent, hdigits, .inr ⟨rfl, rfl⟩, fun negative rest h =>
        read_printDecimal_point hdigits negative h hpoint hlarge hleadingHigh⟩
    · obtain ⟨s, hs, hread⟩ := read_printDecimal_whole hzero hwhole hleadingHigh
      exact ⟨s, -1, hs, .inl (by decide), hread⟩
  · exact ⟨digits, exponent, hdigits, .inr ⟨rfl, rfl⟩, fun negative rest h =>
      read_printDecimal_exponent hdigits negative h hlow hhigh hlength hplain⟩

end HealthRules.Numeral
