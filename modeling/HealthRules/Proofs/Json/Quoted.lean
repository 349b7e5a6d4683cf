import Mathlib
import HealthRules.Json.Quoted
import HealthRules.Proofs.Text.Utf8

/-!
# Reading strings back

A reader takes off the escapes of a quoted string one character at a time (`octets_quoteChar`), so
every string is read back from between its quotes (`text_quote`).
-/

namespace HealthRules.Json.Quoted

open Text.Utf8 (encode)

theorem prepend_nil (r : Except Fault (List UInt8 × List UInt8)) : prepend [] r = r := by
  cases r <;> rfl

theorem prepend_prepend (bytes more : List UInt8)
    (r : Except Fault (List UInt8 × List UInt8)) :
    prepend bytes (prepend more r) = prepend (bytes ++ more) r := by
  cases r with
  | error fault => rfl
  | ok read =>
    show Except.ok (bytes ++ (more ++ read.1), read.2) = Except.ok (bytes ++ more ++ read.1, read.2)
    rw [List.append_assoc]

/-! ## Octets that stand for themselves -/

/-- An octet that a reader of a string takes as it is. -/
structure Ordinary (b : UInt8) : Prop where
  ne_quote : Char.ofUInt8 b ≠ '"'
  ne_backslash : Char.ofUInt8 b ≠ '\\'
  ge : 0x20 ≤ b.toNat

theorem ordinary_of_toNat {b : UInt8} (hquote : b.toNat ≠ 0x22) (hbackslash : b.toNat ≠ 0x5C)
    (hge : 0x20 ≤ b.toNat) : Ordinary b where
  ne_quote := fun h => hquote (congrArg Char.toNat h)
  ne_backslash := fun h => hbackslash (congrArg Char.toNat h)
  ge := hge

theorem octets_ordinary {bs : List UInt8} (h : ∀ b ∈ bs, Ordinary b) (bytes : List UInt8) :
    octets .plain (bs ++ bytes) = prepend bs (octets .plain bytes) := by
  induction bs with
  | nil => exact (prepend_nil _).symm
  | cons b bs ih =>
    obtain ⟨hquote, hbackslash, hge⟩ := h b List.mem_cons_self
    have hcontrol : ¬ b < 0x20 := Text.Utf8.not_lt_iff.mpr hge
    rw [List.cons_append, octets, if_neg hquote, if_neg hbackslash, if_neg hcontrol,
      ih fun d hd => h d (List.mem_cons_of_mem b hd), prepend_prepend, List.singleton_append]

/-- Octets of characters beyond ASCII are beyond ASCII themselves. -/
theorem le_of_mem_utf8EncodeChar {c : Char} (hc : 0x80 ≤ c.toNat) {b : UInt8}
    (hb : b ∈ String.utf8EncodeChar c) : 0x80 ≤ b.toNat := by
  have hval : c.val.toNat = c.toNat := rfl
  have hvalid : c.toNat < 0xD800 ∨ 0xDFFF < c.toNat ∧ c.toNat < 0x110000 := c.valid
  unfold String.utf8EncodeChar at hb
  dsimp only at hb
  rw [hval] at hb
  split_ifs at hb
  · omega
  all_goals
    simp only [List.mem_cons, List.not_mem_nil, or_false] at hb
    rcases hb with rfl | hb
    · rw [UInt8.toNat_ofNat']
      omega
  · rw [hb, UInt8.toNat_ofNat']
    omega
  · rcases hb with rfl | rfl <;> rw [UInt8.toNat_ofNat'] <;> omega
  · rcases hb with rfl | rfl | rfl <;> rw [UInt8.toNat_ofNat'] <;> omega

/-- The octets of a character that needs no escape stand for themselves. -/
theorem ordinary_of_mem_encode {c : Char} (hquote : c ≠ '"') (hbackslash : c ≠ '\\')
    (hcontrol : 0x20 ≤ c.toNat) {b : UInt8} (hb : b ∈ encode [c]) : Ordinary b := by
  rcases Nat.lt_or_ge c.toNat 0x80 with hascii | hbeyond
  · rw [Text.Utf8.encode_cons_of_ascii hascii] at hb
    obtain rfl := List.mem_singleton.mp hb
    have hself : (UInt8.ofNat c.toNat).toNat = c.toNat := by
      rw [UInt8.toNat_ofNat']
      omega
    apply ordinary_of_toNat
    · rw [hself]
      exact fun h => hquote (Char.toNat_inj.mp h)
    · rw [hself]
      exact fun h => hbackslash (Char.toNat_inj.mp h)
    · rw [hself]
      exact hcontrol
  · rw [encode, List.flatMap_singleton] at hb
    have hge := le_of_mem_utf8EncodeChar hbeyond hb
    exact ordinary_of_toNat (by omega) (by omega) (by omega)

/-! ## Escapes -/

theorem octets_letter {c : Char} {octet : UInt8} {b : UInt8} (hb : Char.ofUInt8 b = c)
    (hu : c ≠ 'u') (h : letterEscape? c = some octet) (bytes : List UInt8) :
    octets .plain (0x5C :: b :: bytes) = prepend [octet] (octets .plain bytes) := by
  subst hb
  rw [octets, if_neg (by decide), if_pos (by decide), octets, if_neg hu, h]

/-- Four digits that write no surrogate stand for a character. -/
theorem octets_hex {a b c d : UInt8} {n : Nat} (h : hex? [a, b, c, d] = some n)
    (hlow : n < 0xD800) (bytes : List UInt8) :
    octets .plain (0x5C :: 0x75 :: a :: b :: c :: d :: bytes) =
      prepend (encode [Char.ofNat n]) (octets .plain bytes) := by
  have hread : octets (.hex none []) (a :: b :: c :: d :: bytes) =
      match hex? [a, b, c, d] with
      | none => .error (.before .badEscape bytes)
      | some n =>
        if isLowSurrogate n then .error (.before .loneSurrogate bytes)
        else if isHighSurrogate n then octets (.high n) bytes
        else prepend (encode [Char.ofNat n]) (octets .plain bytes) := by
    cases h : hex? [a, b, c, d] <;> simp only [octets, List.length_nil, List.length_cons,
      List.nil_append, List.cons_append, h] <;> rfl
  -- both kinds of surrogates begin at 0xD800 or later
  have hnotLow : isLowSurrogate n = false := by
    rw [isLowSurrogate, Bool.and_eq_false_iff]
    exact .inl (decide_eq_false (by omega))
  have hnotHigh : isHighSurrogate n = false := by
    rw [isHighSurrogate, Bool.and_eq_false_iff]
    exact .inl (decide_eq_false (by omega))
  rw [octets, if_neg (by decide), if_pos (by decide), octets, if_pos (by decide), hread, h]
  dsimp only
  rw [hnotLow, hnotHigh, if_neg Bool.false_ne_true, if_neg Bool.false_ne_true]

theorem hex?_control : ∀ n : Fin 32,
    encode [hexChar (n / 16), hexChar (n % 16)] =
        [UInt8.ofNat (hexChar (n / 16)).toNat, UInt8.ofNat (hexChar (n % 16)).toNat] ∧
      hex? [0x30, 0x30, UInt8.ofNat (hexChar (n / 16)).toNat,
        UInt8.ofNat (hexChar (n % 16)).toNat] = some n := by
  decide

/-! ## Strings -/

/-- A reader takes the escape off a character. -/
theorem octets_quoteChar (c : Char) (bytes : List UInt8) :
    octets .plain (encode (quoteChar c) ++ bytes) = prepend (encode [c]) (octets .plain bytes) := by
  unfold quoteChar
  split
  case h_8 hquote hbackslash _ _ _ _ _ =>
    split_ifs with hcontrol
    · obtain ⟨hdigits, hvalue⟩ := hex?_control ⟨c.toNat, hcontrol⟩
      have hencode : encode ['\\', 'u', '0', '0', hexChar (c.toNat / 16), hexChar (c.toNat % 16)] =
          0x5C :: 0x75 :: 0x30 :: 0x30 :: [UInt8.ofNat (hexChar (c.toNat / 16)).toNat,
            UInt8.ofNat (hexChar (c.toNat % 16)).toNat] := by
        rw [← hdigits]
        rfl
      rw [hencode]
      show octets .plain (0x5C :: 0x75 :: 0x30 :: 0x30 :: _ :: _ :: bytes) = _
      rw [octets_hex hvalue (by dsimp only; omega), Char.ofNat_toNat]
    · exact octets_ordinary
        (fun b hb => ordinary_of_mem_encode hquote hbackslash (by omega) hb) bytes
  -- the characters with a letter of their own
  all_goals exact octets_letter rfl (by decide) rfl bytes

/-- A quoted text is read as itself, one character after the other. -/
theorem octets_flatMap_quoteChar (cs : List Char) (bytes : List UInt8) :
    octets .plain (encode (cs.flatMap quoteChar) ++ bytes) =
      prepend (encode cs) (octets .plain bytes) := by
  induction cs with
  | nil => exact (prepend_nil _).symm
  | cons c cs ih =>
    rw [List.flatMap_cons, Text.Utf8.encode_append, List.append_assoc, octets_quoteChar, ih,
      prepend_prepend, ← Text.Utf8.encode_append, List.singleton_append]

/-- A string is read back from between its quotes. -/
theorem text_quote (s : String) (rest : List UInt8) :
    text (encode (s.toList.flatMap quoteChar ++ ['"']) ++ rest) = .ok (s, rest) := by
  have hoctets : octets .plain (encode (s.toList.flatMap quoteChar ++ ['"']) ++ rest) =
      .ok (encode s.toList, rest) := by
    have hend : octets .plain (encode ['"'] ++ rest) = .ok ([], rest) := rfl
    rw [Text.Utf8.encode_append, List.append_assoc, octets_flatMap_quoteChar, hend, prepend,
      List.append_nil]
  rw [text, hoctets]
  dsimp only
  rw [Text.Utf8.decode?_encode]
  dsimp only
  rw [String.ofList_toList]

end HealthRules.Json.Quoted
