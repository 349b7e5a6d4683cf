import Mathlib
import HealthRules.Proofs.Json.Extent

/-!
# Values with one spelling

Most JSON values can be written in many ways. Null, the two truth values and the whole numbers
cannot: apart from white space in front, what is read as one of them is its compact text
(`encode_compact_of_readAs`). A number with a point, an exponent or more digits than fit is never
read as a whole number, and neither is a zero with a minus.
-/

namespace HealthRules

open Text.Utf8 (ascii_of_ofUInt8 encode eq_of_ofUInt8)

/-! ## Whole numbers -/

namespace Numeral

open Json (Fault)
open Number (ofNat)

variable {negative : Bool} {s : Nat} {bytes rest : List UInt8} {n : Int}

/-- A digit is the octet of its value. -/
theorem encode_ofNat_digitValue {b : UInt8} (hb : isDigit b = true) :
    encode (ofNat (digitValue b)) = [b] := by
  obtain ⟨hlow, hhigh⟩ := toNat_of_isDigit hb
  have hoctet : b = UInt8.ofNat b.toNat := (UInt8.ofNat_toNat).symm
  rw [hoctet]
  generalize b.toNat = k at hlow hhigh
  interval_cases k <;> rfl

theorem digitValue_pos {b : UInt8} (hb : isDigit b = true) (hzero : Char.ofUInt8 b ≠ '0') :
    0 < digitValue b := by
  have hrange := toNat_of_isDigit hb
  have hne : b.toNat ≠ 48 := by
    rw [← Text.Utf8.toNat_ofUInt8]
    exact fun h => hzero (Char.toNat_inj.mp h)
  unfold digitValue
  omega

/-- A digit behind a number makes it ten times as large. -/
theorem encode_ofNat_push {k : Nat} (hk : 0 < k) {b : UInt8} (hb : isDigit b = true) :
    encode (ofNat (k * 10 + digitValue b)) = encode (ofNat k) ++ [b] := by
  have hdigit : digitValue b < 10 := by
    have hrange := toNat_of_isDigit hb
    unfold digitValue
    omega
  rw [← encode_ofNat_digitValue hb, ← Text.Utf8.encode_append, Nat.mul_comm]
  exact congrArg encode (Nat.toDigits_append_toDigits (by decide) hk hdigit).symm

/-- If no digit is left out, the significand is spelled by the digits. -/
theorem encode_of_integerDigits {k : Nat} (hk : 0 < k)
    (h : integerDigits k bytes = (s, 0, rest)) :
    encode (ofNat k) ++ bytes = encode (ofNat s) ++ rest := by
  induction bytes generalizing k with
  | nil =>
    cases h
    rfl
  | cons b bs ih =>
    rw [integerDigits_cons] at h
    split_ifs at h with hb
    · cases hpush : push? k (digitValue b) with
      | none =>
        rw [hpush] at h
        simp at h
      | some m =>
        rw [hpush] at h
        obtain ⟨-, hm⟩ := Option.ite_none_right_eq_some.mp hpush
        have hm : k * 10 + digitValue b = m := Option.some.inj hm
        rw [← ih (by omega) h, ← hm, encode_ofNat_push hk hb, List.append_assoc]
        rfl
    · cases h
      rfl

/-- Digits that are read as a whole number, which is not zero behind a minus. -/
theorem eq_of_whole (h : whole negative s bytes = .ok (.integer n, rest)) :
    bytes = rest ∧ n = (if negative then -(s : Int) else s) ∧ (negative = true → 0 < s) := by
  unfold whole at h
  split_ifs at h with hpositive hrange
  · cases h
    rw [Bool.not_eq_true'] at hpositive
    rw [hpositive]
    exact ⟨rfl, rfl, by simp⟩
  · cases isBinary_of_finish h
  · cases h
    rw [Bool.not_eq_true', Bool.not_eq_false] at hpositive
    rw [hpositive]
    exact ⟨rfl, rfl, fun _ => Nat.pos_of_ne_zero (not_or.mp hrange).1⟩

/-- A number is whole only if nothing follows its digits. -/
theorem whole_of_readAfterInteger {dropped : Nat}
    (h : readAfterInteger negative s dropped bytes = .ok (.integer n, rest)) :
    dropped = 0 ∧ whole negative s bytes = .ok (.integer n, rest) := by
  rcases whole_or_isBinary_of_readAfterInteger h with hwhole | hbinary
  · exact hwhole
  · cases hbinary

/-- Octets that are read as a whole number begin with its digits, and with nothing else. -/
theorem encode_of_read (h : read negative bytes = .ok (.integer n, rest)) :
    ∃ s : Nat, bytes = encode (ofNat s) ++ rest ∧ n = (if negative then -(s : Int) else s) ∧
      (negative = true → 0 < s) := by
  obtain ⟨b, bs, rfl, hb⟩ := exists_digit_of_read h
  by_cases hzero : Char.ofUInt8 b = '0'
  · have hbs : NoDigit bs := noDigit_of_read_zero hzero h
    rw [read_zero hzero hbs] at h
    obtain ⟨rfl, hn, hs⟩ := eq_of_whole (whole_of_readAfterInteger h).2
    obtain rfl : b = 0x30 := eq_of_ofUInt8 hzero
    exact ⟨0, rfl, hn, hs⟩
  · cases hdigits : integerDigits (digitValue b) bs with
    | mk s tail =>
      obtain ⟨dropped, rest'⟩ := tail
      rw [read_run hzero hb hdigits] at h
      obtain ⟨rfl, hwhole⟩ := whole_of_readAfterInteger h
      obtain ⟨rfl, hn, hs⟩ := eq_of_whole hwhole
      refine ⟨s, ?_, hn, hs⟩
      have hpos : 0 < digitValue b := digitValue_pos hb hzero
      rw [← encode_of_integerDigits hpos hdigits, encode_ofNat_digitValue hb]
      rfl

end Numeral

/-! ## Values -/

namespace Json

variable {depth : Nat} {bytes rest : List UInt8} {j : Json}

/-- The values that are spelled in one way only. -/
inductive HasOneText : Json → Prop
  | null : HasOneText .null
  | bool (b : Bool) : HasOneText (.bool b)
  | integer (n : Int) : HasOneText (.number (.integer n))

theorem encode_of_word {cs : List Char} (hcs : ∀ c ∈ cs, c.toNat < 0x80)
    (h : word cs bytes = .ok rest) : bytes = encode cs ++ rest := by
  induction cs generalizing bytes with
  | nil =>
    cases h
    rfl
  | cons c cs ih =>
    cases bytes with
    | nil => cases h
    | cons b bs =>
      rw [word] at h
      split_ifs at h with hb
      have hascii : b.toNat < 0x80 := ascii_of_ofUInt8 (hcs c List.mem_cons_self) hb
      rw [ih (fun d hd => hcs d (List.mem_cons_of_mem c hd)) h, Text.Utf8.encode_cons, ← hb,
        Text.Utf8.utf8EncodeChar_one hascii]
      rfl

theorem encode_compact_of_readAs (h : ReadAs depth bytes j rest) (hj : j.HasOneText) :
    bytes = encode j.compact ++ rest := by
  cases h with
  | null h | truth h | falsity h =>
    rw [encode_of_word (by simp) h]
    rfl
  | negative h =>
    cases hj with
    | integer n =>
      obtain ⟨s, rfl, rfl, hs⟩ := Numeral.encode_of_read h
      have hpos := hs rfl
      show _ = encode (Number.ofInt (-(s : Int))) ++ rest
      rw [Number.ofInt_eq, if_pos (by omega), Int.natAbs_neg, Int.natAbs_natCast]
      rfl
  | positive h =>
    cases hj with
    | integer n =>
      obtain ⟨s, rfl, rfl, -⟩ := Numeral.encode_of_read h
      rfl
  | string _ | array _ _ | object _ _ => cases hj

end Json
end HealthRules
