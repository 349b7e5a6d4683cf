import Mathlib.Tactic.SplitIfs
import HealthRules.Text.Utf8

/-!
# Reading UTF-8 back

The octets of a text are cut into the characters of the text (`pieces_encode_append`), so a text is
read back from its octets (`decode?_encode`).
-/

namespace HealthRules.Text.Utf8

theorem encode_append (cs ds : List Char) : encode (cs ++ ds) = encode cs ++ encode ds :=
  List.flatMap_append

theorem encode_cons (c : Char) (cs : List Char) :
    encode (c :: cs) = String.utf8EncodeChar c ++ encode cs :=
  List.flatMap_cons

/-- A character of ASCII is one octet. -/
theorem encode_cons_of_ascii {c : Char} (h : c.toNat < 128) (cs : List Char) :
    encode (c :: cs) = UInt8.ofNat c.toNat :: encode cs := by
  have hone : String.utf8EncodeChar c = [UInt8.ofNat c.toNat] := by
    unfold String.utf8EncodeChar
    exact if_pos (Nat.le_of_lt_succ h)
  rw [encode_cons, hone]
  rfl

/-- A character of one octet in front of a text. -/
theorem encode_cons_append {c : Char} {b : UInt8} (h : String.utf8EncodeChar c = [b])
    (cs : List Char) (rest : List UInt8) : encode (c :: cs) ++ rest = b :: (encode cs ++ rest) := by
  rw [encode_cons, h, List.append_assoc, List.singleton_append]

/-- A character of one octet within a text. -/
theorem encode_append_cons_append {c : Char} {b : UInt8} (h : String.utf8EncodeChar c = [b])
    (front back : List Char) (rest : List UInt8) :
    encode (front ++ c :: back) ++ rest = encode front ++ b :: (encode back ++ rest) := by
  rw [encode_append, List.append_assoc, encode_cons_append h]

/-- No character vanishes, so a text has at least as many octets as characters. -/
theorem length_le_length_encode (cs : List Char) : cs.length ≤ (encode cs).length := by
  induction cs with
  | nil => exact Nat.le_refl 0
  | cons c cs ih =>
    have hpos := c.utf8Size_pos
    rw [encode_cons, List.length_append, String.length_utf8EncodeChar, List.length_cons]
    omega

/-! ## Octets of one character -/

theorem toNat_ofUInt8 (b : UInt8) : (Char.ofUInt8 b).toNat = b.toNat := rfl

/-- Octets are told apart by the characters of the same numbers. -/
theorem eq_of_ofUInt8 {a b : UInt8} (h : Char.ofUInt8 a = Char.ofUInt8 b) : a = b :=
  UInt8.toNat_inj.mp (congrArg Char.toNat h)

theorem not_lt_iff {a k : UInt8} : ¬ a < k ↔ k.toNat ≤ a.toNat :=
  UInt8.not_lt.trans UInt8.le_iff_toNat_le

/-- The octets that may follow within a character are those from 0x80 to 0xBF. -/
theorem isTail_iff {b : UInt8} : isTail b = true ↔ 0x80 ≤ b.toNat ∧ b.toNat ≤ 0xBF := by
  rw [isTail, Bool.and_eq_true, decide_eq_true_iff, decide_eq_true_iff, UInt8.le_iff_toNat_le,
    UInt8.le_iff_toNat_le]
  rfl

/-- An octet that carries six bits of a character. -/
theorem isTail_ofNat (n : Nat) : isTail (UInt8.ofNat (n % 64 + 128)) = true := by
  rw [isTail_iff, UInt8.toNat_ofNat']
  omega

/-- Six bits come back out of the octet they were put into. -/
theorem tailBits_ofNat (n : Nat) : tailBits (UInt8.ofNat (n % 64 + 128)) = n % 64 := by
  rw [tailBits, UInt8.toNat_ofNat']
  omega

/-- Which second octets keep a character from being written too long, from being a surrogate and
from lying beyond the last one. -/
theorem isStart_iff {a b : UInt8} : isStart a b = true ↔
    0xC2 ≤ a.toNat ∧ a.toNat ≤ 0xF4 ∧ 0x80 ≤ b.toNat ∧ b.toNat ≤ 0xBF ∧
      (a.toNat = 0xE0 → 0xA0 ≤ b.toNat) ∧ (a.toNat = 0xED → b.toNat ≤ 0x9F) ∧
      (a.toNat = 0xF0 → 0x90 ≤ b.toNat) ∧ (a.toNat = 0xF4 → b.toNat ≤ 0x8F) := by
  have heq : ∀ k : UInt8, a = k ↔ a.toNat = k.toNat := fun k => UInt8.toNat_inj.symm
  unfold isStart
  simp only [heq, isTail, Bool.or_eq_true, decide_eq_true_eq, UInt8.lt_iff_toNat_lt,
    UInt8.le_iff_toNat_le, UInt8.reduceToNat, apply_ite (· = true), Bool.and_eq_true,
    Bool.false_eq_true]
  split_ifs
  · rw [false_iff]
    omega
  all_goals omega

/-- An octet of ASCII is a character by itself. -/
theorem pieces_one {a : UInt8} (ha : a.toNat < 0x80) (bs : List UInt8) :
    pieces (a :: bs) = .char (Char.ofNat a.toNat) 1 :: pieces bs := by
  rw [pieces.eq_def]
  exact if_pos (UInt8.lt_iff_toNat_lt.mpr ha)

/-- A start below 0xE0 takes one more octet. -/
theorem pieces_two {a b : UInt8} (hab : isStart a b = true) (ha : a.toNat < 0xE0)
    (bs : List UInt8) : pieces (a :: b :: bs) =
      .char (Char.ofNat (a.toNat % 32 * 64 + tailBits b)) 2 :: pieces bs := by
  have hlow := (isStart_iff.mp hab).1
  have h1 : ¬ a < 0x80 := not_lt_iff.mpr (Nat.le_trans (by decide) hlow)
  rw [pieces.eq_def]
  dsimp only
  rw [if_neg h1, hab, if_neg (by decide), if_pos (UInt8.lt_iff_toNat_lt.mpr ha)]

/-- A start from 0xE0 on takes two more. -/
theorem pieces_three {a b c : UInt8} (hab : isStart a b = true) (hc : isTail c = true)
    (hlow : 0xE0 ≤ a.toNat) (hhigh : a.toNat < 0xF0) (bs : List UInt8) :
    pieces (a :: b :: c :: bs) = .char (Char.ofNat
      ((a.toNat % 16 * 64 + tailBits b) * 64 + tailBits c)) 3 :: pieces bs := by
  have h1 : ¬ a < 0x80 := not_lt_iff.mpr (Nat.le_trans (by decide) hlow)
  have h2 : ¬ a < 0xE0 := not_lt_iff.mpr hlow
  rw [pieces.eq_def]
  dsimp only
  rw [if_neg h1, hab, if_neg (by decide), if_neg h2, hc, if_neg (by decide),
    if_pos (UInt8.lt_iff_toNat_lt.mpr hhigh)]

/-- A start from 0xF0 on takes three more. -/
theorem pieces_four {a b c d : UInt8} (hab : isStart a b = true) (hc : isTail c = true)
    (hd : isTail d = true) (hlow : 0xF0 ≤ a.toNat) (bs : List UInt8) :
    pieces (a :: b :: c :: d :: bs) = .char (Char.ofNat
      (((a.toNat % 8 * 64 + tailBits b) * 64 + tailBits c) * 64 + tailBits d)) 4 ::
        pieces bs := by
  have h1 : ¬ a < 0x80 := not_lt_iff.mpr (Nat.le_trans (by decide) hlow)
  have h2 : ¬ a < 0xE0 := not_lt_iff.mpr (Nat.le_trans (by decide) hlow)
  have h3 : ¬ a < 0xF0 := not_lt_iff.mpr hlow
  rw [pieces.eq_def]
  dsimp only
  rw [if_neg h1, hab, if_neg (by decide), if_neg h2, hc, if_neg (by decide), if_neg h3, hd,
    if_neg (by decide)]

/-- The octets of a character are one piece. -/
theorem pieces_utf8EncodeChar_append (c : Char) (bs : List UInt8) :
    pieces (String.utf8EncodeChar c ++ bs) =
      .char c (String.utf8EncodeChar c).length :: pieces bs := by
  have hval : c.val.toNat = c.toNat := rfl
  have hvalid : c.toNat < 0xD800 ∨ 0xDFFF < c.toNat ∧ c.toNat < 0x110000 := c.valid
  have hself : ∀ {n : Nat}, n = c.toNat → Char.ofNat n = c := fun h => by
    rw [h, Char.ofNat_toNat]
  unfold String.utf8EncodeChar
  dsimp only
  rw [hval]
  -- one case for each number of octets; the bounds of the code point rule out what no start allows
  split_ifs with h1 h2 h3
  · rw [List.singleton_append, pieces_one (by rw [UInt8.toNat_ofNat']; omega), hself]
    · rfl
    · rw [UInt8.toNat_ofNat']
      omega
  · simp only [List.cons_append, List.nil_append]
    rw [pieces_two, hself]
    · rfl
    · simp only [tailBits_ofNat, UInt8.toNat_ofNat']
      omega
    · simp only [isStart_iff, UInt8.toNat_ofNat']
      omega
    · simp only [UInt8.toNat_ofNat']
      omega
  · simp only [List.cons_append, List.nil_append]
    rw [pieces_three, hself]
    · rfl
    · simp only [tailBits_ofNat, UInt8.toNat_ofNat']
      omega
    · simp only [isStart_iff, UInt8.toNat_ofNat']
      omega
    · exact isTail_ofNat _
    · simp only [UInt8.toNat_ofNat']
      omega
    · simp only [UInt8.toNat_ofNat']
      omega
  · simp only [List.cons_append, List.nil_append]
    rw [pieces_four, hself]
    · rfl
    · simp only [tailBits_ofNat, UInt8.toNat_ofNat']
      omega
    · simp only [isStart_iff, UInt8.toNat_ofNat']
      omega
    · exact isTail_ofNat _
    · exact isTail_ofNat _
    · simp only [UInt8.toNat_ofNat']
      omega

/-- Encoded characters are taken apart into themselves, whatever stands behind them. -/
theorem pieces_encode_append (cs : List Char) (bs : List UInt8) :
    pieces (encode cs ++ bs) =
      cs.map (fun c => .char c (String.utf8EncodeChar c).length) ++ pieces bs := by
  induction cs with
  | nil => rfl
  | cons c cs ih =>
    rw [encode_cons, List.append_assoc, pieces_utf8EncodeChar_append, ih, List.map_cons,
      List.cons_append]

/-- A text is read back from its octets. -/
theorem decode?_encode (cs : List Char) : decode? (encode cs) = some cs := by
  have hpieces := pieces_encode_append cs []
  rw [List.append_nil, pieces, List.append_nil] at hpieces
  have hpure : cs.mapM (fun c => (pure (id c) : Option Char)) = pure (cs.map id) :=
    List.mapM_pure
  rw [List.map_id] at hpure
  rw [decode?, hpieces, List.mapM_map]
  exact hpure

end HealthRules.Text.Utf8
