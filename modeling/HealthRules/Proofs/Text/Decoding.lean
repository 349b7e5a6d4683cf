import Mathlib
import HealthRules.Proofs.Text.Utf8

/-!
# Octets that are a text

Octets are a text if they are what some characters are written as (`IsText`). Reading UTF-8 is
exact: octets that are read without a stretch that encodes nothing are a text, and this text is what
was read (`decode?_eq_some_iff`). A text may be cut in front of every octet that does not continue a
character (`IsText.split`), and what is left behind a text is a text (`IsText.of_encode_append`).
-/

namespace HealthRules.Text.Utf8

open String (utf8EncodeChar)

/-! ## One character -/

theorem encode_singleton (c : Char) : encode [c] = utf8EncodeChar c :=
  List.flatMap_singleton _ c

/-- A code point that is a character is the number of this character. -/
theorem toNat_ofNat_of_valid {n : Nat} (h : n.isValidChar) : (Char.ofNat n).val.toNat = n := by
  rw [Char.ofNat, dif_pos h]
  rfl

/-- An octet that stands for a character of ASCII is below 0x80. -/
theorem ascii_of_ofUInt8 {b : UInt8} {c : Char} (hc : c.toNat < 0x80) (h : Char.ofUInt8 b = c) :
    b.toNat < 0x80 := by
  rw [← h] at hc
  exact hc

section Octets

variable {a b c d : UInt8}

theorem utf8EncodeChar_one (ha : a.toNat < 0x80) : utf8EncodeChar (Char.ofUInt8 a) = [a] := by
  have hval : (Char.ofUInt8 a).val.toNat = a.toNat := rfl
  unfold utf8EncodeChar
  dsimp only
  rw [hval, if_pos (by omega), UInt8.ofNat_toNat]

/-- The payload of two octets that start and follow as they should is encoded as these octets. -/
theorem utf8EncodeChar_two (hab : isStart a b = true) (ha : a.toNat < 0xE0) :
    utf8EncodeChar (Char.ofNat (a.toNat % 32 * 64 + tailBits b)) = [a, b] := by
  obtain ⟨hlow, -, hb, hb', -⟩ := isStart_iff.mp hab
  unfold tailBits
  have hval := toNat_ofNat_of_valid (n := a.toNat % 32 * 64 + b.toNat % 64) (.inl (by omega))
  unfold utf8EncodeChar
  dsimp only
  rw [hval, if_neg (by omega), if_pos (by omega)]
  simp only [List.cons.injEq, and_true, ← UInt8.toNat_inj, UInt8.toNat_ofNat']
  omega

/-- So is that of three octets; the second one has ruled out overlong forms and surrogates. -/
theorem utf8EncodeChar_three (hab : isStart a b = true) (hc : isTail c = true)
    (hlow : 0xE0 ≤ a.toNat) (hhigh : a.toNat < 0xF0) :
    utf8EncodeChar (Char.ofNat ((a.toNat % 16 * 64 + tailBits b) * 64 + tailBits c)) =
      [a, b, c] := by
  obtain ⟨-, -, hb, hb', hlong, hsurrogate, -, -⟩ := isStart_iff.mp hab
  have htail := isTail_iff.mp hc
  unfold tailBits
  have hval := toNat_ofNat_of_valid
    (n := (a.toNat % 16 * 64 + b.toNat % 64) * 64 + c.toNat % 64) (by unfold Nat.isValidChar; omega)
  unfold utf8EncodeChar
  dsimp only
  rw [hval, if_neg (by omega), if_neg (by omega), if_pos (by omega)]
  simp only [List.cons.injEq, and_true, ← UInt8.toNat_inj, UInt8.toNat_ofNat']
  omega

/-- So is that of four octets; the second one has ruled out what is beyond the last code point. -/
theorem utf8EncodeChar_four (hab : isStart a b = true) (hc : isTail c = true)
    (hd : isTail d = true) (hlow : 0xF0 ≤ a.toNat) :
    utf8EncodeChar (Char.ofNat
      (((a.toNat % 8 * 64 + tailBits b) * 64 + tailBits c) * 64 + tailBits d)) = [a, b, c, d] := by
  obtain ⟨-, ha, hb, hb', -, -, hlong, hbeyond⟩ := isStart_iff.mp hab
  have htail := isTail_iff.mp hc
  have htail' := isTail_iff.mp hd
  unfold tailBits
  have hval := toNat_ofNat_of_valid
    (n := ((a.toNat % 8 * 64 + b.toNat % 64) * 64 + c.toNat % 64) * 64 + d.toNat % 64)
    (by unfold Nat.isValidChar; omega)
  unfold utf8EncodeChar
  dsimp only
  rw [hval, if_neg (by omega), if_neg (by omega), if_neg (by omega)]
  simp only [List.cons.injEq, and_true, ← UInt8.toNat_inj, UInt8.toNat_ofNat']
  omega

end Octets

/-- The first piece of some octets is a character that they begin with, or encodes none. -/
theorem utf8EncodeChar_or_malformed (a : UInt8) (as : List UInt8) :
    (∃ c rest, a :: as = utf8EncodeChar c ++ rest) ∨
      ∃ n ps, pieces (a :: as) = .malformed n :: ps := by
  -- the cases follow the reader: how many octets the first one announces, and whether they are
  -- there
  by_cases h1 : a < 0x80
  · have ha := UInt8.lt_iff_toNat_lt.mp h1
    exact .inl ⟨_, as, by rw [utf8EncodeChar_one ha, List.singleton_append]⟩
  rw [pieces.eq_def]
  dsimp only
  rw [if_neg h1]
  cases as with
  | nil => exact .inr ⟨1, [], rfl⟩
  | cons b bs =>
    dsimp only
    cases hab : isStart a b with
    | false => exact .inr ⟨1, _, rfl⟩
    | true =>
      rw [if_neg (by decide)]
      by_cases h2 : a < 0xE0
      · have ha := UInt8.lt_iff_toNat_lt.mp h2
        exact .inl ⟨_, bs, by rw [utf8EncodeChar_two hab ha]; rfl⟩
      rw [if_neg h2]
      have hlow : 0xE0 ≤ a.toNat := not_lt_iff.mp h2
      cases bs with
      | nil => exact .inr ⟨2, [], rfl⟩
      | cons c cs =>
        dsimp only
        cases hc : isTail c with
        | false => exact .inr ⟨2, _, rfl⟩
        | true =>
          rw [if_neg (by decide)]
          by_cases h3 : a < 0xF0
          · have ha := UInt8.lt_iff_toNat_lt.mp h3
            exact .inl ⟨_, cs, by rw [utf8EncodeChar_three hab hc hlow ha]; rfl⟩
          rw [if_neg h3]
          have hlow' : 0xF0 ≤ a.toNat := not_lt_iff.mp h3
          cases cs with
          | nil => exact .inr ⟨3, [], rfl⟩
          | cons d ds =>
            dsimp only
            cases hd : isTail d with
            | false => exact .inr ⟨3, _, rfl⟩
            | true => exact .inl ⟨_, ds, by rw [utf8EncodeChar_four hab hc hd hlow']; rfl⟩

/-! ## Texts -/

/-- A decoder takes one encoded character at a time. -/
theorem decode?_utf8EncodeChar_append (c : Char) (bytes : List UInt8) :
    decode? (utf8EncodeChar c ++ bytes) = (decode? bytes).map (c :: ·) := by
  unfold decode?
  rw [pieces_utf8EncodeChar_append, List.mapM_cons]
  cases List.mapM (m := Option) _ (pieces bytes) <;> rfl

/-- Octets are read as a text exactly if they are what it is written as. -/
theorem decode?_eq_some_iff {bytes : List UInt8} {cs : List Char} :
    decode? bytes = some cs ↔ bytes = encode cs := by
  constructor
  · intro h
    induction hn : bytes.length using Nat.strong_induction_on generalizing bytes cs with
    | _ n ih =>
      cases bytes with
      | nil =>
        cases h
        rfl
      | cons a as =>
        rcases utf8EncodeChar_or_malformed a as with ⟨c, rest, hchar⟩ | ⟨n, ps, hpieces⟩
        · have hlength := congrArg List.length hchar
          have hpos := c.utf8Size_pos
          rw [hchar, decode?_utf8EncodeChar_append] at h
          rw [List.length_append, String.length_utf8EncodeChar] at hlength
          obtain ⟨ds, hds, rfl⟩ := Option.map_eq_some_iff.mp h
          rw [hchar, encode_cons, ih rest.length (by omega) hds rfl]
        · rw [decode?, hpieces, List.mapM_cons] at h
          cases h
  · rintro rfl
    exact decode?_encode cs

/-- A text loses nothing, so replacement characters stand for octets that no text has. -/
theorem decodeLossy_encode (cs : List Char) : decodeLossy (encode cs) = cs := by
  have hpieces := pieces_encode_append cs []
  rw [List.append_nil, pieces, List.append_nil] at hpieces
  rw [decodeLossy, hpieces, List.map_map]
  exact List.map_id cs

/-- Octets that some characters are written as. -/
def IsText (bytes : List UInt8) : Prop :=
  ∃ cs, bytes = encode cs

namespace IsText

theorem nil : IsText [] :=
  ⟨[], rfl⟩

theorem append {xs ys : List UInt8} (hx : IsText xs) (hy : IsText ys) : IsText (xs ++ ys) := by
  obtain ⟨cs, rfl⟩ := hx
  obtain ⟨ds, rfl⟩ := hy
  exact ⟨cs ++ ds, (encode_append cs ds).symm⟩

/-- An octet of ASCII is a text. -/
theorem cons {b : UInt8} (hb : b.toNat < 0x80) {bytes : List UInt8} (h : IsText bytes) :
    IsText (b :: bytes) := by
  obtain ⟨cs, rfl⟩ := h
  exact ⟨Char.ofUInt8 b :: cs, by rw [encode_cons, utf8EncodeChar_one hb]; rfl⟩

/-- Octets of ASCII are a text whatever their order is. -/
theorem of_ascii {bytes : List UInt8} (h : ∀ b ∈ bytes, b.toNat < 0x80) : IsText bytes := by
  induction bytes with
  | nil => exact nil
  | cons b bytes ih =>
    exact cons (h b List.mem_cons_self) (ih fun d hd => h d (List.mem_cons_of_mem b hd))

/-- What stands behind a text within a text is a text. -/
theorem of_encode_append {cs : List Char} {bytes : List UInt8} (h : IsText (encode cs ++ bytes)) :
    IsText bytes := by
  induction cs with
  | nil => exact h
  | cons c cs ih =>
    obtain ⟨ds, hds⟩ := h
    rw [encode_cons, List.append_assoc, ← decode?_eq_some_iff, decode?_utf8EncodeChar_append] at hds
    obtain ⟨es, hes, -⟩ := Option.map_eq_some_iff.mp hds
    exact ih ⟨es, decode?_eq_some_iff.mp hes⟩

/-- Behind a character of ASCII a text begins anew. -/
theorem of_cons {b : UInt8} (hb : b.toNat < 0x80) {bytes : List UInt8} (h : IsText (b :: bytes)) :
    IsText bytes := by
  have hself : encode [Char.ofUInt8 b] = [b] := by
    rw [encode_singleton, utf8EncodeChar_one hb]
  rw [← List.singleton_append, ← hself] at h
  exact of_encode_append h

end IsText

/-- All octets of a character but the first continue it. -/
theorem isTail_of_mem_tail {c : Char} {b : UInt8} (h : b ∈ (utf8EncodeChar c).tail) :
    isTail b = true := by
  unfold utf8EncodeChar at h
  dsimp only at h
  split_ifs at h
  · simp at h
  all_goals
    simp only [List.tail_cons, List.mem_cons, List.not_mem_nil, or_false] at h
  · rw [h]
    exact isTail_ofNat _
  · rcases h with rfl | rfl <;> exact isTail_ofNat _
  · rcases h with rfl | rfl | rfl <;> exact isTail_ofNat _

/-- A text may be cut in front of an octet that continues no character. -/
theorem IsText.split {xs ys : List UInt8} {b : UInt8} (h : IsText (xs ++ b :: ys))
    (hb : isTail b = false) : IsText xs ∧ IsText (b :: ys) := by
  obtain ⟨cs, hcs⟩ := h
  induction cs generalizing xs with
  | nil => exact absurd hcs (by simp [encode])
  | cons c cs ih =>
    rw [encode_cons] at hcs
    rcases List.append_eq_append_iff.mp hcs with ⟨more, hchar, hrest⟩ | ⟨more, hxs, hrest⟩
    · cases xs with
      | nil => exact ⟨nil, ⟨c :: cs, by rw [encode_cons, ← hcs, List.nil_append]⟩⟩
      | cons x xs =>
        cases more with
        | nil =>
          rw [List.append_nil] at hchar
          exact ⟨⟨[c], by rw [encode_singleton, hchar]⟩, ⟨cs, hrest⟩⟩
        | cons m more =>
          -- the cut would lie within the character
          have hmem : b ∈ (utf8EncodeChar c).tail := by
            rw [hchar, (List.cons.inj hrest).1]
            simp
          rw [isTail_of_mem_tail hmem] at hb
          exact absurd hb (by decide)
    · obtain ⟨hfront, hback⟩ := ih hrest.symm
      refine ⟨?_, hback⟩
      rw [hxs]
      exact append ⟨[c], (encode_singleton c).symm⟩ hfront

/-- The first octet of a character continues none. -/
theorem exists_utf8EncodeChar (c : Char) :
    ∃ a as, utf8EncodeChar c = a :: as ∧ isTail a = false := by
  have hvalid : c.val.toNat < 0xD800 ∨ 0xDFFF < c.val.toNat ∧ c.val.toNat < 0x110000 := c.valid
  have hnot : ∀ {a : UInt8}, a.toNat < 0x80 ∨ 0xBF < a.toNat → isTail a = false := by
    intro a ha
    rw [← Bool.not_eq_true, isTail_iff]
    omega
  unfold utf8EncodeChar
  dsimp only
  split_ifs
  all_goals
    refine ⟨_, _, rfl, hnot ?_⟩
    rw [UInt8.toNat_ofNat']
    omega

/-- A text may be cut around each of its characters. -/
theorem IsText.split_char {xs ys : List UInt8} {c : Char} (h : IsText (xs ++ (encode [c] ++ ys))) :
    IsText xs ∧ IsText ys := by
  obtain ⟨a, as, hchar, ha⟩ := exists_utf8EncodeChar c
  have hmore : IsText (encode [c] ++ ys) := by
    rw [encode_singleton, hchar] at h ⊢
    exact (h.split ha).2
  rw [encode_singleton, hchar] at h
  exact ⟨(h.split ha).1, hmore.of_encode_append⟩

/-! ## How long a text and its octets are -/

theorem length_utf8EncodeChar_le (c : Char) : (utf8EncodeChar c).length ≤ 4 := by
  rw [String.length_utf8EncodeChar]
  exact Char.utf8Size_le_four c

/-- A character is written with four octets at most. -/
theorem length_encode_le (cs : List Char) : (encode cs).length ≤ 4 * cs.length := by
  induction cs with
  | nil => rfl
  | cons c cs ih =>
    have hc := length_utf8EncodeChar_le c
    rw [encode_cons, List.length_append, List.length_cons]
    omega

/-- A piece of a text has an octet at least. -/
theorem length_decodeLossy_le (bytes : List UInt8) : (decodeLossy bytes).length ≤ bytes.length := by
  rw [decodeLossy, List.length_map]
  fun_induction pieces bytes <;> simp only [List.length_cons, List.length_nil] at * <;> omega

end HealthRules.Text.Utf8
