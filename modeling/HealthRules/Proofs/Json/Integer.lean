import Mathlib
import HealthRules.Json.Parser
import HealthRules.Proofs.Json.RoundTrip

/-!
# Reading whole numbers

A whole number that a JSON number can hold is read back from its text, in front of anything that
does not continue a number (`value_ofInt`). So is an object with such a number as its only member
(`ofBytes?_memberText`).
-/

namespace HealthRules.Json

/-- A whole number is read from its text. -/
theorem value_ofInt (depth : Nat) {n : Int} (hn : InRange n) {rest : List UInt8}
    (h : Numeral.Ends rest) :
    value denotation depth (Text.Utf8.encode (Number.ofInt n) ++ rest) =
      .ok (.number (.integer n), rest) := by
  have hvalue := faithful.value_print depth (.integer hn) h
  show value denotation depth (Text.Utf8.encode (Numeral.integer n).print ++ rest) = _
  rw [hvalue]
  show Except.ok (Json.number (Numeral.reread (.integer n)), rest) = _
  rw [Numeral.reread_integer hn]

/-! ## An object with a number -/

/-- The text of an object that has a whole number as its member `k` and no other member. -/
def memberText (n : Int) : List Char :=
  "\x7b\"k\": ".toList ++ (Number.ofInt n ++ ['}'])

theorem value_space {κ α : Type} (D : Denotation κ α) (depth : Nat) (bytes : List UInt8) :
    value D depth (0x20 :: bytes) = value D depth bytes := by
  unfold value
  rfl

theorem text_k (rest : List UInt8) :
    Quoted.text (0x6B :: 0x22 :: rest) = .ok ("k", rest) := by
  rfl

theorem ofBytes?_memberText {n : Int} (hn : InRange n) :
    ofBytes? (Text.Utf8.encode (memberText n)) = .ok (.object [("k", .number (.integer n))]) := by
  have hend : Numeral.Ends [0x7D] := Numeral.ends_cons (by decide) []
  -- the octets are spelt out as far as the number, which is read for every `n` at once
  have hbytes : Text.Utf8.encode (memberText n) = 0x7B :: 0x22 :: 0x6B :: 0x22 :: 0x3A :: 0x20 ::
      (Text.Utf8.encode (Number.ofInt n) ++ [0x7D]) := by
    have hfront : Text.Utf8.encode "\x7b\"k\": ".toList =
        [0x7B, 0x22, 0x6B, 0x22, 0x3A, 0x20] := by
      decide
    have hback : Text.Utf8.encode ['}'] = [0x7D] := by
      decide
    unfold memberText
    simp only [Text.Utf8.encode_append, hfront, hback, List.cons_append, List.nil_append]
  have hvalue : value denotation 126
      (0x20 :: (Text.Utf8.encode (Number.ofInt n) ++ [0x7D])) =
        .ok (.number (.integer n), [0x7D]) := by
    rw [value_space, value_ofInt 126 hn hend]
  have hmore : members (value denotation 126) denotation.key 2 [0x7D] = .ok ([], []) := rfl
  have hkey : denotation.key (0x6B :: 0x22 :: 0x3A :: 0x20 ::
      (Text.Utf8.encode (Number.ofInt n) ++ [0x7D])) = .ok ("k", 0x3A :: 0x20 ::
        (Text.Utf8.encode (Number.ofInt n) ++ [0x7D])) := text_k _
  have hquote : skipBlank (0x22 :: 0x6B :: 0x22 :: 0x3A :: 0x20 ::
      (Text.Utf8.encode (Number.ofInt n) ++ [0x7D])) = 0x22 :: 0x6B :: 0x22 :: 0x3A :: 0x20 ::
        (Text.Utf8.encode (Number.ofInt n) ++ [0x7D]) := rfl
  have hcolon : skipBlank (0x3A :: 0x20 :: (Text.Utf8.encode (Number.ofInt n) ++ [0x7D])) =
      0x3A :: 0x20 :: (Text.Utf8.encode (Number.ofInt n) ++ [0x7D]) := rfl
  have hobject := objectMembers_cons hquote (member_eq hkey hcolon hvalue) hmore
  have hread : read denotation maxDepth (Text.Utf8.encode (memberText n)) =
      .ok (.object [("k", .number (.integer n))]) := by
    unfold read
    rw [hbytes, maxDepth, value_brace, hobject]
    rfl
  rw [ofBytes?, hread]
  rfl

end HealthRules.Json
