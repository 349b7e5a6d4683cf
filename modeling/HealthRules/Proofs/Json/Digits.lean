import Mathlib
import HealthRules.Json.Numeral
import HealthRules.Proofs.Number.Digits
import HealthRules.Proofs.Text.Utf8

/-!
# Reading digits

A reader of numbers takes digits into its significand, its places or its exponent until they end, as
long as what they write fits. So each part of the text of a number is read for what it was written
from: the digits in front (`read_digits`), the digits around a point (`read_point`), and an exponent
with its sign (`readExponent_digits`).
-/

namespace HealthRules.Numeral

open Number (maxUnsigned64 ofNat)
open Text.Utf8 (encode)

/-! ## Octets of digits -/

/-- A digit is one octet, which stands for this digit. -/
theorem ofUInt8_ofNat {c : Char} (h : c.isDigit = true) :
    Char.ofUInt8 (UInt8.ofNat c.toNat) = c := by
  obtain ⟨-, hle⟩ := Number.toNat_of_isDigit h
  apply Char.toNat_inj.mp
  show (UInt8.ofNat c.toNat).toUInt32.toNat = c.toNat
  rw [UInt8.toNat_toUInt32, UInt8.toNat_ofNat']
  omega

/-- The octet of a digit has its value. -/
theorem digitValue_ofNat {c : Char} (h : c.isDigit = true) :
    digitValue (UInt8.ofNat c.toNat) = c.toNat - 48 := by
  obtain ⟨-, hle⟩ := Number.toNat_of_isDigit h
  rw [digitValue, UInt8.toNat_ofNat']
  omega

theorem isDigit_ofNat {c : Char} (h : c.isDigit = true) :
    isDigit (UInt8.ofNat c.toNat) = true := by
  rw [isDigit, ofUInt8_ofNat h]
  exact h

theorem toNat_of_isDigit {b : UInt8} (h : isDigit b = true) : 48 ≤ b.toNat ∧ b.toNat ≤ 57 :=
  Number.toNat_of_isDigit h

/-- A digit in front of a text is one octet in front of its octets. -/
theorem encode_cons {c : Char} (h : c.isDigit = true) (cs : List Char) :
    encode (c :: cs) = UInt8.ofNat c.toNat :: encode cs := by
  obtain ⟨-, hle⟩ := Number.toNat_of_isDigit h
  exact Text.Utf8.encode_cons_of_ascii (by omega) cs

/-- Octets that do not begin with a digit. -/
def NoDigit : List UInt8 → Prop
  | [] => True
  | b :: _ => isDigit b = false

/-- Octets behind a number that do not continue it. -/
def Ends : List UInt8 → Prop
  | [] => True
  | b :: _ => isDigit b = false ∧ Char.ofUInt8 b ≠ '.' ∧
      ¬ (Char.ofUInt8 b = 'e' ∨ Char.ofUInt8 b = 'E')

/-- White space and what stands between values continue no number. -/
theorem ends_cons {b : UInt8} (h : b ∈ [0x09, 0x0A, 0x0D, 0x20, 0x2C, 0x3A, 0x5D, 0x7D])
    (rest : List UInt8) : Ends (b :: rest) := by
  have hall : ∀ b ∈ ([0x09, 0x0A, 0x0D, 0x20, 0x2C, 0x3A, 0x5D, 0x7D] : List UInt8),
      isDigit b = false ∧ Char.ofUInt8 b ≠ '.' ∧
        ¬ (Char.ofUInt8 b = 'e' ∨ Char.ofUInt8 b = 'E') := by
    decide +kernel
  exact hall b h

/-- What continues no number continues no run of digits. -/
theorem Ends.noDigit {rest : List UInt8} (h : Ends rest) : NoDigit rest := by
  cases rest with
  | nil => trivial
  | cons b bs => exact h.1

/-! ## Runs of digits -/

/-- The first digit of a number is its value so far. -/
theorem ofDigitChars_cons_zero {c : Char} (h : c.isDigit = true) (cs : List Char) :
    Nat.ofDigitChars 10 (c :: cs) 0 =
      Nat.ofDigitChars 10 cs (digitValue (UInt8.ofNat c.toNat)) := by
  rw [Nat.ofDigitChars_cons, Nat.mul_zero, Nat.zero_add, digitValue_ofNat h]
  rfl

/-- A digit goes into a significand that stays small enough with it. -/
theorem push?_digit {c : Char} (hc : c.isDigit = true) {cs : List Char} {n : Nat}
    (hn : Nat.ofDigitChars 10 (c :: cs) n ≤ maxUnsigned64) :
    push? n (digitValue (UInt8.ofNat c.toNat)) = some (10 * n + (c.toNat - '0'.toNat)) := by
  rw [Nat.ofDigitChars_cons] at hn
  have hle := Nat.le_trans (Number.le_ofDigitChars cs (10 * n + (c.toNat - '0'.toNat))) hn
  rw [push?, digitValue_ofNat hc, Nat.mul_comm n 10]
  exact if_pos hle

-- To unfold `push?` as far as possible is to count up to its bound.
attribute [local irreducible] push? in
/-- One digit of an integer: it is pushed while the significand has room, and counted as dropped
from the first one on that does not fit. -/
theorem integerDigits_cons (n : Nat) (b : UInt8) (bs : List UInt8) :
    integerDigits n (b :: bs) =
      if isDigit b then
        match push? n (digitValue b) with
        | some s => integerDigits s bs
        | none => (n, 1 + (bs.takeWhile isDigit).length, bs.dropWhile isDigit)
      else (n, 0, b :: bs) := rfl

attribute [local irreducible] push? in
/-- One digit of a fraction: it counts a place if it is pushed, and a run that does not fit is
passed over. -/
theorem fractionDigits_cons (n places : Nat) (b : UInt8) (bs : List UInt8) :
    fractionDigits n places (b :: bs) =
      if isDigit b then
        match push? n (digitValue b) with
        | some s => fractionDigits s (places + 1) bs
        | none => (n, places, bs.dropWhile isDigit)
      else (n, places, b :: bs) := rfl

section NoDigit

variable {rest : List UInt8} (h : NoDigit rest)

include h

theorem integerDigits_of_noDigit (n : Nat) : integerDigits n rest = (n, 0, rest) := by
  cases rest with
  | nil => rfl
  | cons b bs => rw [integerDigits_cons, h, if_neg Bool.false_ne_true]

theorem fractionDigits_of_noDigit (n places : Nat) :
    fractionDigits n places rest = (n, places, rest) := by
  cases rest with
  | nil => rfl
  | cons b bs => rw [fractionDigits_cons, h, if_neg Bool.false_ne_true]

theorem exponentDigits_of_noDigit (n : Nat) : exponentDigits n rest = .ok (n, rest) := by
  cases rest with
  | nil => rfl
  | cons b bs =>
    rw [exponentDigits]
    exact if_neg (Bool.not_eq_true _ ▸ h)

end NoDigit

/-- Digits go into the significand one by one as long as it fits. -/
theorem integerDigits_append {ds : List Char} (hds : ∀ c ∈ ds, c.isDigit = true) {n : Nat}
    (hn : Nat.ofDigitChars 10 ds n ≤ maxUnsigned64) {rest : List UInt8} (h : NoDigit rest) :
    integerDigits n (encode ds ++ rest) = (Nat.ofDigitChars 10 ds n, 0, rest) := by
  induction ds generalizing n with
  | nil => exact integerDigits_of_noDigit h n
  | cons c ds ih =>
    have hc : c.isDigit = true := hds c List.mem_cons_self
    rw [encode_cons hc, List.cons_append, integerDigits_cons, isDigit_ofNat hc, if_pos rfl,
      push?_digit hc hn, Nat.ofDigitChars_cons]
    exact ih (fun d hd => hds d (List.mem_cons_of_mem c hd)) hn

/-- So do the digits of a fraction, and each is counted. -/
theorem fractionDigits_append {ds : List Char} (hds : ∀ c ∈ ds, c.isDigit = true) {n : Nat}
    (places : Nat) (hn : Nat.ofDigitChars 10 ds n ≤ maxUnsigned64) {rest : List UInt8}
    (h : NoDigit rest) :
    fractionDigits n places (encode ds ++ rest) =
      (Nat.ofDigitChars 10 ds n, places + ds.length, rest) := by
  induction ds generalizing n places with
  | nil => exact fractionDigits_of_noDigit h n places
  | cons c ds ih =>
    have hc : c.isDigit = true := hds c List.mem_cons_self
    rw [encode_cons hc, List.cons_append, fractionDigits_cons, isDigit_ofNat hc, if_pos rfl,
      push?_digit hc hn, Nat.ofDigitChars_cons, List.length_cons, Nat.add_comm ds.length,
      ← Nat.add_assoc]
    exact ih (fun d hd => hds d (List.mem_cons_of_mem c hd)) (places + 1) hn

/-- The digits of an exponent are read up to where they end, if the number that they write is small
enough. -/
theorem exponentDigits_append {ds : List Char} (hds : ∀ c ∈ ds, c.isDigit = true) {n : Nat}
    (hn : Nat.ofDigitChars 10 ds n ≤ maxExponent) {rest : List UInt8} (h : NoDigit rest) :
    exponentDigits n (encode ds ++ rest) = .ok (Nat.ofDigitChars 10 ds n, rest) := by
  induction ds generalizing n with
  | nil => exact exponentDigits_of_noDigit h n
  | cons c ds ih =>
    have hc : c.isDigit = true := hds c List.mem_cons_self
    rw [Nat.ofDigitChars_cons] at hn
    have hle := Nat.le_trans (Number.le_ofDigitChars ds (10 * n + (c.toNat - '0'.toNat))) hn
    have hvalue : n * 10 + digitValue (UInt8.ofNat c.toNat) =
        10 * n + (c.toNat - '0'.toNat) := by
      rw [digitValue_ofNat hc, Nat.mul_comm n 10]
      rfl
    rw [encode_cons hc, List.cons_append, exponentDigits, isDigit_ofNat hc, if_pos rfl]
    dsimp only
    rw [hvalue, if_pos hle, Nat.ofDigitChars_cons]
    exact ih (fun d hd => hds d (List.mem_cons_of_mem c hd)) hn

/-! ## Numbers -/

/-- Digits without a zero in front that is not the only one. -/
structure Digits (ds : List Char) : Prop where
  ne_nil : ds ≠ []
  all : ∀ c ∈ ds, c.isDigit = true
  zero : ds.head? = some '0' → ds = ['0']

/-- Zero is a number of its own: no other begins with it. -/
theorem digits_zero : Digits ['0'] where
  ne_nil := List.cons_ne_nil _ _
  all := List.forall_mem_singleton.mpr rfl
  zero := fun _ => rfl

/-- The digits that write a number begin with a zero for zero only. -/
theorem digits_ofNat (n : Nat) : Digits (ofNat n) where
  ne_nil := Number.ofNat_ne_nil n
  all := fun _ => Number.isDigit_of_mem_ofNat
  zero := by
    intro hzero
    rcases Nat.eq_zero_or_pos n with rfl | hpos
    · rfl
    · exact absurd hzero (Number.head?_ofNat_ne_zero hpos)

/-- How a number begins: with a zero that no digit follows, or with another digit. -/
theorem read_cons (negative : Bool) (b : UInt8) (bs : List UInt8) :
    read negative (b :: bs) =
      if Char.ofUInt8 b = '0' then
        match bs with
        | d :: _ =>
          if isDigit d then .error (.looking .badNumber bs) else readAfterInteger negative 0 0 bs
        | [] => readAfterInteger negative 0 0 []
      else if isDigit b then
        let (significand, dropped, rest) := integerDigits (digitValue b) bs
        readAfterInteger negative significand dropped rest
      else .error (.before .badNumber bs) := rfl

/-- The digits in front of a number go into the significand. -/
theorem read_digits (negative : Bool) {ds : List Char} (hds : Digits ds)
    (hmax : Nat.ofDigitChars 10 ds 0 ≤ maxUnsigned64) {rest : List UInt8} (h : NoDigit rest) :
    read negative (encode ds ++ rest) =
      readAfterInteger negative (Nat.ofDigitChars 10 ds 0) 0 rest := by
  by_cases hzero : ds.head? = some '0'
  · -- a zero stands alone
    have hoctet : encode ['0'] = [0x30] := by decide
    have hvalue : Nat.ofDigitChars 10 ['0'] 0 = 0 := rfl
    rw [hds.zero hzero, hoctet, hvalue, List.singleton_append, read_cons, if_pos (by decide)]
    cases rest with
    | nil => rfl
    | cons b bs =>
      dsimp only
      rw [h, if_neg Bool.false_ne_true]
  · obtain ⟨c, cs, rfl⟩ := List.exists_cons_of_ne_nil hds.ne_nil
    have hc : c.isDigit = true := hds.all c List.mem_cons_self
    have hne : c ≠ '0' := fun heq => hzero (by rw [heq, List.head?_cons])
    rw [ofDigitChars_cons_zero hc] at hmax ⊢
    rw [encode_cons hc, List.cons_append, read_cons, ofUInt8_ofNat hc, if_neg hne,
      isDigit_ofNat hc, if_pos rfl,
      integerDigits_append (fun d hd => hds.all d (List.mem_cons_of_mem c hd)) hmax h]

/-- Without a fraction and an exponent the number is whole, unless digits were dropped. -/
theorem readAfterInteger_ends (negative : Bool) (significand dropped : Nat) {rest : List UInt8}
    (h : Ends rest) : readAfterInteger negative significand dropped rest =
      if dropped = 0 then whole negative significand rest
      else finish negative significand dropped rest := by
  unfold readAfterInteger
  cases rest with
  | nil => rfl
  | cons b bs =>
    dsimp only
    rw [if_neg h.2.1, if_neg h.2.2]

/-- Without dropped digits it is the whole number that was read. -/
theorem readAfterInteger_of_ends (negative : Bool) (significand : Nat) {rest : List UInt8}
    (h : Ends rest) :
    readAfterInteger negative significand 0 rest = whole negative significand rest := by
  rw [readAfterInteger_ends negative significand 0 h, if_pos rfl]

/-- A point begins a fraction. -/
theorem readAfterInteger_point (negative : Bool) (significand : Nat) (bytes : List UInt8) :
    readAfterInteger negative significand 0 (0x2E :: bytes) =
      readFraction negative significand 0 bytes := by
  unfold readAfterInteger
  exact if_pos (by decide)

/-- A letter begins an exponent. -/
theorem readAfterInteger_exponent (negative : Bool) (significand : Nat) (bytes : List UInt8) :
    readAfterInteger negative significand 0 (0x65 :: bytes) =
      readExponent negative significand 0 bytes := by
  unfold readAfterInteger
  dsimp only
  rw [if_neg (by decide)]
  exact if_pos (by decide)

/-- The digits of a fraction join the significand, and each lowers the exponent by one. -/
theorem readFraction_digits (negative : Bool) {significand : Nat} (exponent : Int)
    {ds : List Char} (hne : ds ≠ []) (hds : ∀ c ∈ ds, c.isDigit = true)
    (hmax : Nat.ofDigitChars 10 ds significand ≤ maxUnsigned64) {rest : List UInt8}
    (h : NoDigit rest) :
    readFraction negative significand exponent (encode ds ++ rest) =
      readTail negative (Nat.ofDigitChars 10 ds significand) (exponent - ds.length) rest := by
  have hread := fractionDigits_append hds 0 hmax h
  rw [Nat.zero_add] at hread
  obtain ⟨c, cs, rfl⟩ := List.exists_cons_of_ne_nil hne
  have hc : c.isDigit = true := hds c List.mem_cons_self
  rw [encode_cons hc, List.cons_append] at hread ⊢
  unfold readFraction
  dsimp only
  rw [isDigit_ofNat hc, if_pos rfl, hread]

theorem readTail_of_ends (negative : Bool) (significand : Nat) (exponent : Int)
    {rest : List UInt8} (h : Ends rest) :
    readTail negative significand exponent rest = finish negative significand exponent rest := by
  unfold readTail
  cases rest with
  | nil => rfl
  | cons b bs => exact if_neg h.2.2

/-- An exponent may follow a fraction as well. -/
theorem readTail_exponent (negative : Bool) (significand : Nat) (exponent : Int)
    (bytes : List UInt8) :
    readTail negative significand exponent (0x65 :: bytes) =
      readExponent negative significand exponent bytes := by
  unfold readTail
  exact if_pos (by decide)

/-- Digits on both sides of a point go into the significand. -/
theorem read_point (negative : Bool) {whole fraction : List Char} (hwhole : Digits whole)
    (hne : fraction ≠ []) (hfraction : ∀ c ∈ fraction, c.isDigit = true)
    (hmax : Nat.ofDigitChars 10 (whole ++ fraction) 0 ≤ maxUnsigned64) {rest : List UInt8}
    (h : NoDigit rest) :
    read negative (encode (whole ++ '.' :: fraction) ++ rest) =
      readTail negative (Nat.ofDigitChars 10 (whole ++ fraction) 0) (-fraction.length) rest := by
  have hpoint : NoDigit (0x2E :: (encode fraction ++ rest)) := by
    show isDigit 0x2E = false
    decide
  rw [Nat.ofDigitChars_append] at hmax ⊢
  have hmax' := Nat.le_trans (Number.le_ofDigitChars fraction _) hmax
  rw [Text.Utf8.encode_append_cons_append (b := 0x2E) (by decide),
    read_digits negative hwhole hmax' hpoint, readAfterInteger_point,
    readFraction_digits negative 0 hne hfraction hmax h, Int.zero_sub]

/-- What follows the sign of an exponent: a digit and the digits behind it, or an error. -/
theorem readExponent_sign (negative : Bool) (significand : Nat) (exponent : Int) (down : Bool)
    (b : UInt8) (bs : List UInt8) :
    readExponent negative significand exponent ((if down then 0x2D else 0x2B) :: b :: bs) =
      if isDigit b then
        match exponentDigits (digitValue b) bs with
        | .ok (e, rest) =>
          finish negative significand (if down then exponent - e else exponent + e) rest
        | .error rest =>
          if significand ≠ 0 ∧ !down then .error (.before .numberOutOfRange rest)
          else .ok (float ⟨negative, 0⟩, rest.dropWhile isDigit)
      else .error (.before .badNumber bs) := by
  cases down <;> rfl

/-- A printed exponent shifts the one that the fraction left, down for a minus and up for a plus. -/
theorem readExponent_digits (negative : Bool) (significand : Nat) (exponent : Int) (down : Bool)
    {n : Nat} (hn : n ≤ maxExponent) {rest : List UInt8} (h : NoDigit rest) :
    readExponent negative significand exponent
        (encode ((if down then '-' else '+') :: ofNat n) ++ rest) =
      finish negative significand (if down then exponent - n else exponent + n) rest := by
  have hvalue := Number.ofDigitChars_ofNat n
  obtain ⟨c, cs, hdigits⟩ := List.exists_cons_of_ne_nil (Number.ofNat_ne_nil n)
  have hall : ∀ d ∈ c :: cs, d.isDigit = true := by
    rw [← hdigits]
    exact fun d => Number.isDigit_of_mem_ofNat
  have hc : c.isDigit = true := hall c List.mem_cons_self
  rw [hdigits, ofDigitChars_cons_zero hc] at hvalue
  have hread := exponentDigits_append (fun d hd => hall d (List.mem_cons_of_mem c hd))
    (hvalue.trans_le hn) h
  rw [hvalue] at hread
  have hsign : encode ((if down then '-' else '+') :: c :: cs) =
      (if down then 0x2D else 0x2B) :: UInt8.ofNat c.toNat :: encode cs := by
    rw [← encode_cons hc]
    cases down <;> exact Text.Utf8.encode_cons_of_ascii (by decide) _
  rw [hdigits, hsign, List.cons_append, List.cons_append, readExponent_sign, isDigit_ofNat hc,
    if_pos rfl, hread]

/-- A number is read from its fewest digits. -/
theorem read_ofNat (negative : Bool) {n : Nat} (hn : n ≤ maxUnsigned64) {rest : List UInt8}
    (h : Ends rest) : read negative (encode (ofNat n) ++ rest) = whole negative n rest := by
  have hvalue := Number.ofDigitChars_ofNat n
  rw [read_digits negative (digits_ofNat n) (hvalue.trans_le hn) h.noDigit, hvalue,
    readAfterInteger_of_ends negative n h]

end HealthRules.Numeral
