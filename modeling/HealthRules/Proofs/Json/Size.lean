import Mathlib
import HealthRules.Proofs.Json.Spelling

/-!
# How long a text becomes

The compact text of a value may be longer than the octets that the value was read from: a number of
three octets is written with more than twenty digits, and one octet of a string with six characters.
It is not longer than 500 times as much (`length_compact_of_ofBytes?`): a number is never longer
than this, and everything else costs less for each octet that is read (`Frugal`).
-/

namespace HealthRules

open Number (Binary64 maxUnsigned64 ofNat)
open Text.Utf8 (encode)

/-! ## Numbers -/

namespace Numeral

/-- A point among the digits costs two characters: itself and perhaps a zero behind it. -/
theorem length_pointed_le (digits : List Char) (n : Nat) :
    (pointed digits n).length ≤ digits.length + 2 := by
  unfold pointed
  dsimp only
  rw [List.length_append, List.length_cons]
  split_ifs
  · simp
  · simp
    omega

/-- The layout of a number adds no more zeros than its exponent says. -/
theorem length_printDecimal_le (digits : Nat) (exponent : Int) :
    (printDecimal digits exponent).length ≤
      2 * (ofNat digits).length + exponent.natAbs + 10 := by
  unfold printDecimal
  dsimp only
  split_ifs with hplain hsmall
  · simp
    omega
  · have hpointed := length_pointed_le (ofNat digits ++ List.replicate exponent.toNat '0')
      ((exponent + (ofNat digits).length - 1).toNat + 1)
    simp only [List.length_append, List.length_replicate] at hpointed
    omega
  all_goals
    have hpointed := length_pointed_le (ofNat digits) 1
    have hleading := Number.length_ofNat_le (exponent + (ofNat digits).length - 1).natAbs
    simp only [List.length_append, List.length_cons]
    omega

/-- The text of a number that a reader can give is short. -/
theorem length_print_le {n : Numeral} (h : n.Sound) : n.print.length ≤ 500 := by
  have hmagnitude : n.magnitude.length ≤ 450 := by
    cases h with
    | @integer n hn =>
      obtain ⟨hlow, hhigh⟩ := hn
      have hmax : maxUnsigned64 = 2 ^ 64 - 1 := rfl
      exact (Number.length_ofNat_of_le (show n.natAbs ≤ maxUnsigned64 by omega)).trans (by decide)
    | @float x hx =>
      rw [magnitude]
      by_cases hzero : x.units = 0
      · rw [hzero]
        decide +kernel
      · obtain ⟨-, hdigits, hlow, hhigh⟩ := Binary64.shortest_bounds hzero hx.finite
        have hprint := length_printDecimal_le (Binary64.shortest x.units).1
          (Binary64.shortest x.units).2
        have hlength := Number.length_ofNat_of_le hdigits
        omega
  rw [print_eq, List.length_append]
  split <;> simp <;> omega

end Numeral

/-! ## Strings -/

namespace Json.Quoted

/-- A character in quotes is written with one character, or with an escape of six at most. -/
theorem length_quoteChar_bounds (c : Char) :
    1 ≤ (quoteChar c).length ∧ (quoteChar c).length ≤ 6 := by
  unfold quoteChar
  split
  case h_8 => split <;> simp
  all_goals simp

/-- A quoted string has at least a character for each of its own, and at most six. -/
theorem length_quote_bounds (s : String) :
    s.length ≤ (quote s).length ∧ (quote s).length ≤ 6 * s.length + 2 := by
  have hchars : ∀ cs : List Char, cs.length ≤ (cs.flatMap quoteChar).length ∧
      (cs.flatMap quoteChar).length ≤ 6 * cs.length := by
    intro cs
    induction cs with
    | nil => exact ⟨Nat.le_refl _, Nat.le_refl _⟩
    | cons c cs ih =>
      have hc := length_quoteChar_bounds c
      rw [List.flatMap_cons, List.length_append, List.length_cons]
      omega
  have hs := hchars s.toList
  rw [String.length_toList] at hs
  rw [quote, List.length_append, List.length_cons, List.length_singleton]
  omega

/-- An octet stands for four octets at most, and the closing quote for none. -/
theorem Unescapes.length_le {place : Place} {used read : List UInt8}
    (h : Unescapes place used read) : read.length + 4 ≤ 4 * used.length := by
  induction h with
  | close _ => rfl
  | @go _ _ _ emit _ _ h _ ih =>
    have hemit : emit.length ≤ 4 := by
      rcases move_cases h with ⟨-, rfl, -⟩ | ⟨rfl, -⟩ | ⟨c, rfl, -⟩
      · simp
      · simp
      · rw [Text.Utf8.encode_singleton]
        exact Text.Utf8.length_utf8EncodeChar_le c
    rw [List.length_append, List.length_cons]
    omega

/-- A quoted string costs 24 characters for each octet at most. -/
theorem length_quote_of_text {bytes rest : List UInt8} {s : String}
    (h : text bytes = .ok (s, rest)) :
    (quote s).length + 24 * rest.length ≤ 24 * bytes.length ∧ rest.length < bytes.length := by
  rw [text] at h
  cases hoctets : octets .plain bytes with
  | error fault =>
    rw [hoctets] at h
    cases h
  | ok r =>
    obtain ⟨read, rest'⟩ := r
    rw [hoctets] at h
    dsimp only at h
    cases hdecode : Text.Utf8.decode? read with
    | none =>
      rw [hdecode] at h
      cases h
    | some cs =>
      rw [hdecode] at h
      cases h
      obtain ⟨used, rfl, hused⟩ := Unescapes.of_octets hoctets
      -- from octets to what they stand for, to characters, to the quoted text
      have hread := hused.length_le
      have hchars := Text.Utf8.length_le_length_encode cs
      rw [Text.Utf8.decode?_eq_some_iff] at hdecode
      have hquote := (length_quote_bounds (String.ofList cs)).2
      rw [String.length_ofList] at hquote
      rw [hdecode] at hread
      rw [List.length_append]
      omega

end Json.Quoted

/-! ## Values -/

namespace Json

theorem length_skipBlank_le (bytes : List UInt8) : (skipBlank bytes).length ≤ bytes.length :=
  (List.dropWhile_sublist isBlank).length_le

/-- The text of what is read is not longer than 500 times the octets that it is read from. -/
def Frugal (reader : List UInt8 → Except Fault (Json × List UInt8)) : Prop :=
  ∀ ⦃bytes rest : List UInt8⦄ ⦃j : Json⦄, reader bytes = .ok (j, rest) →
    j.compact.length + 500 * rest.length ≤ 500 * bytes.length

/-- A number is printed with 500 characters at most, and took an octet to read. -/
theorem length_print_of_read {negative : Bool} {bytes rest : List UInt8} {n : Numeral}
    (h : Numeral.read negative bytes = .ok (n, rest)) :
    n.print.length + 500 * rest.length ≤ 500 * bytes.length := by
  have hprint := Numeral.length_print_le (Numeral.sound_of_read h)
  obtain ⟨used, rfl, ⟨-, front, d, rfl, -⟩, -⟩ := Numeral.takes_read h
  simp only [List.length_append, List.length_singleton]
  omega

/-- A value with one spelling is not printed longer than it was read. -/
theorem length_of_hasOneText (depth : Nat) {bytes rest : List UInt8} {j : Json}
    (h : ReadAs depth bytes j rest) (hj : j.HasOneText) :
    j.compact.length + rest.length ≤ bytes.length := by
  have hoctets := Text.Utf8.length_le_length_encode j.compact
  rw [encode_compact_of_readAs h hj, List.length_append]
  omega

/-- The brackets of a list: one of them stands for the comma that the first item does not have. -/
theorem length_compact_array_le (items : List Json) :
    (compact (.array items)).length ≤ 1 + (compactItems items).length := by
  cases items with
  | nil => rfl
  | cons item items =>
    rw [length_compact_array (List.cons_ne_nil item items)]
    omega

/-- The braces of an object: one of them stands for the comma that the first member does not have.
-/
theorem length_compact_object_le (ms : List (String × Json)) :
    (compact (.object ms)).length ≤ 1 + (compactMembers ms).length := by
  cases ms with
  | nil => rfl
  | cons m ms =>
    rw [length_compact_object (List.cons_ne_nil m ms)]
    omega

/-- An item costs its text and a comma. -/
theorem length_compactItems_cons (item : Json) (items : List Json) :
    (compactItems (item :: items)).length =
      1 + item.compact.length + (compactItems items).length := by
  rw [compactItems, List.length_append, List.length_cons]
  omega

/-- How much a member adds to the text of an object, its comma left out. -/
def memberSize (m : String × Json) : Nat :=
  (Quoted.quote m.1).length + 1 + m.2.compact.length

/-- A member costs its size and a comma. -/
theorem length_compactMembers_cons (m : String × Json) (ms : List (String × Json)) :
    (compactMembers (m :: ms)).length = 1 + memberSize m + (compactMembers ms).length := by
  obtain ⟨key, item⟩ := m
  rw [compactMembers, memberSize]
  simp only [List.length_append, List.length_cons]
  omega

/-! Putting members in order adds nothing, and may leave some out. -/

/-- A member that is put among sorted ones costs no more than its size, less if it takes the place
of another. -/
theorem length_compactMembers_insertMember (m : String × Json) (ms : List (String × Json)) :
    (compactMembers (insertMember m.1 m.2 ms)).length ≤
      1 + memberSize m + (compactMembers ms).length := by
  obtain ⟨key, item⟩ := m
  dsimp only
  induction ms with
  | nil => rw [insertMember, length_compactMembers_cons]
  | cons first ms ih =>
    obtain ⟨k, v⟩ := first
    rw [insertMember]
    split_ifs with heq hlt
    · rw [length_compactMembers_cons, length_compactMembers_cons]
      omega
    · rw [length_compactMembers_cons]
    · rw [length_compactMembers_cons, length_compactMembers_cons]
      omega

/-- Sorting members does not make them longer, and members with one key become shorter. -/
theorem length_compactMembers_sortMembers (ms : List (String × Json)) :
    (compactMembers (sortMembers ms)).length ≤ (compactMembers ms).length := by
  have hfold : ∀ sorted : List (String × Json),
      (compactMembers (ms.foldl (fun sorted m => insertMember m.1 m.2 sorted) sorted)).length + 1 ≤
        (compactMembers sorted).length + (compactMembers ms).length := by
    induction ms with
    | nil => exact fun sorted => Nat.le_refl _
    | cons m ms ih =>
      intro sorted
      have hinsert := length_compactMembers_insertMember m sorted
      have hmore := ih (insertMember m.1 m.2 sorted)
      rw [List.foldl_cons, length_compactMembers_cons]
      omega
  have hsorted := hfold []
  have hnil : (compactMembers []).length = 1 := rfl
  rw [hnil] at hsorted
  exact Nat.le_of_add_le_add_right (hsorted.trans_eq (Nat.add_comm _ _))

section Parts

variable {depth n : Nat} {bytes rest : List UInt8} {items : List Json} {m : String × Json}
  {ms : List (String × Json)} (hvalue : Frugal (value denotation depth))

include hvalue

/-- Each element that is read pays for itself and its comma. -/
theorem length_of_elements (h : elements (value denotation depth) n bytes = .ok (items, rest)) :
    (compactItems items).length + 500 * rest.length ≤ 500 * bytes.length := by
  induction n generalizing bytes items with
  | zero => cases h
  | succ n ih =>
    have hblank := length_skipBlank_le bytes
    rcases elements_cases h with ⟨hskip, rfl⟩ | ⟨_, bs, x, xs, rest', hn, hskip, rfl, hx, hxs⟩
    · have hnil : (compactItems []).length = 1 := rfl
      rw [hskip, List.length_cons] at hblank
      omega
    · cases hn
      have hfirst := hvalue hx
      have hmore := ih hxs
      have hspace := length_skipBlank_le bs
      rw [hskip, List.length_cons] at hblank
      rw [length_compactItems_cons]
      omega

/-- A list pays for its items; the opening bracket, which is not read here, is left to pay for two
characters. -/
theorem length_of_listItems (h : listItems (value denotation depth) bytes = .ok (items, rest)) :
    (compact (.array items)).length + 500 * rest.length ≤ 500 * bytes.length + 2 := by
  have hblank := length_skipBlank_le bytes
  have harray := length_compact_array_le items
  rcases listItems_cases h with ⟨hskip, rfl⟩ | ⟨x, xs, rest', rfl, hx, hxs⟩
  · have hnil : (compactItems []).length = 1 := rfl
    rw [hskip, List.length_cons] at hblank
    omega
  · have hfirst := hvalue hx
    have hmore := length_of_elements hvalue hxs
    rw [length_compactItems_cons] at harray
    omega

/-- A member pays for its key, the colon and its value. -/
theorem length_of_member
    (h : member (value denotation depth) Quoted.text bytes = .ok (m, rest)) :
    memberSize m + 500 * rest.length ≤ 500 * bytes.length := by
  obtain ⟨afterName, afterColon, hname, hskip, hx⟩ := member_cases h
  obtain ⟨hquote, hshorter⟩ := Quoted.length_quote_of_text hname
  have hspace := length_skipBlank_le afterName
  have hitem := hvalue hx
  rw [hskip, List.length_cons] at hspace
  rw [memberSize]
  omega

/-- Each member that is read pays for itself and its comma. -/
theorem length_of_members
    (h : members (value denotation depth) Quoted.text n bytes = .ok (ms, rest)) :
    (compactMembers ms).length + 500 * rest.length ≤ 500 * bytes.length := by
  induction n generalizing bytes ms with
  | zero => cases h
  | succ n ih =>
    have hblank := length_skipBlank_le bytes
    rcases members_cases h with ⟨hskip, rfl⟩ | ⟨_, afterComma, _, m, ms, _, hn, hskip, hquote, rfl,
      hm, hms⟩
    · have hnil : (compactMembers []).length = 1 := rfl
      rw [hskip, List.length_cons] at hblank
      omega
    · cases hn
      have hfirst := length_of_member hvalue hm
      have hmore := ih hms
      have hspace := length_skipBlank_le afterComma
      rw [hskip, List.length_cons] at hblank
      rw [hquote, List.length_cons] at hspace
      rw [length_compactMembers_cons]
      omega

/-- An object pays for its members, of which sorting keeps no more than were read. -/
theorem length_of_objectMembers
    (h : objectMembers (value denotation depth) Quoted.text bytes = .ok (ms, rest)) :
    (compact (.ofMembers ms)).length + 500 * rest.length ≤ 500 * bytes.length + 2 := by
  have hblank := length_skipBlank_le bytes
  have hobject := length_compact_object_le (sortMembers ms)
  have hsorted := length_compactMembers_sortMembers ms
  rw [ofMembers]
  rcases objectMembers_cases h with ⟨hskip, rfl⟩ | ⟨_, m, ms, _, hskip, rfl, hm, hms⟩
  · have hnil : (compactMembers []).length = 1 := rfl
    rw [hskip, List.length_cons] at hblank
    omega
  · have hfirst := length_of_member hvalue hm
    have hmore := length_of_members hvalue hms
    rw [hskip, List.length_cons] at hblank
    rw [length_compactMembers_cons] at hsorted
    omega

end Parts

/-- Reading a value pays for its text. -/
theorem frugal_value (depth : Nat) : Frugal (value denotation depth) := by
  -- what is inside a list or an object is read with less depth
  induction depth using Nat.strong_induction_on with
  | _ depth ih =>
    intro bytes rest j h
    have hblank := length_skipBlank_le bytes
    have hread := readAs_of_value h
    generalize skipBlank bytes = inner at hblank hread
    cases hread with
    | null h =>
      have hlength := length_of_hasOneText depth (.null h) .null
      omega
    | truth h =>
      have hlength := length_of_hasOneText depth (.truth h) (.bool true)
      omega
    | falsity h =>
      have hlength := length_of_hasOneText depth (.falsity h) (.bool false)
      omega
    | @string bs rest s h =>
      have hquote : (compact (.string s)).length + 24 * rest.length ≤ 24 * bs.length :=
        (Quoted.length_quote_of_text h).1
      have hshorter := (Quoted.length_quote_of_text h).2
      rw [List.length_cons] at hblank
      omega
    | @negative bs rest n h =>
      have hprint : (compact (.number n)).length + 500 * rest.length ≤ 500 * bs.length :=
        length_print_of_read h
      rw [List.length_cons] at hblank
      omega
    | @positive _ rest n h =>
      have hprint : (compact (.number n)).length + 500 * rest.length ≤ 500 * inner.length :=
        length_print_of_read h
      omega
    | @array bs rest inner items hinner h =>
      have hitems := length_of_listItems (ih inner hinner) h
      rw [List.length_cons] at hblank
      omega
    | @object bs rest inner ms hinner h =>
      have hmembers := length_of_objectMembers (ih inner hinner) h
      rw [List.length_cons] at hblank
      omega

/-- The text of a value is not longer than 500 times the octets that write it. -/
theorem length_compact_of_ofBytes? {bytes : List UInt8} {j : Json} (h : ofBytes? bytes = .ok j) :
    j.compact.length ≤ 500 * bytes.length := by
  obtain ⟨rest, hvalue, -⟩ := ofBytes?_eq_ok_iff_value.mp h
  have hlength := frugal_value maxDepth hvalue
  omega

/-! ## Paths -/

/-- A part of a value is not longer than the value. -/
theorem length_compact_of_step? {step : Step} {j j' : Json} (h : step? step j = .ok j') :
    j'.compact.length ≤ j.compact.length := by
  rcases mem_of_step? h with ⟨_, members, rfl, hmem⟩ | ⟨items, rfl, hmem⟩
  · rw [length_compact_object (List.ne_nil_of_mem hmem)]
    exact (length_compact_of_mem_members hmem).le
  · rw [length_compact_array (List.ne_nil_of_mem hmem)]
    exact (length_compact_of_mem_items hmem).le

/-- What a path leads to is not longer than the body. -/
theorem length_compact_of_walk? {path : BodyPath} {j j' : Json} (h : j.walk? path = .ok j') :
    j'.compact.length ≤ j.compact.length := by
  induction path generalizing j with
  | nil =>
    cases h
    exact Nat.le_refl _
  | cons step path ih =>
    obtain ⟨next, hstep, hwalk⟩ := bind_eq_ok_iff.mp h
    exact (ih hwalk).trans (length_compact_of_step? hstep)

end Json
end HealthRules
