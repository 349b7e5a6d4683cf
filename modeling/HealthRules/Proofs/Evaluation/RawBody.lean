import Mathlib
import HealthRules.Proofs.Evaluation.Length
import HealthRules.Proofs.Json.Extent
import HealthRules.Proofs.Text.Blank

/-!
# The two readings of a body

A path reads the octets of a body. The body without a path is a text, with replacement characters
for what is not UTF-8 and without any white space around it; its kind is that of the value which
this text writes. The two readings find the same value in a plain body (`IsPlain`): one that is
UTF-8 and has no white space around it but that of JSON. Of other bodies the octets are not JSON,
whatever the text is (`Json.ofBytes?_eq_ok_iff`). So an index below the length of the body leads
somewhere exactly if the body is plain, and no index does if the body is no array
(`Field.resolve?_index`).
-/

namespace HealthRules

open Text.Utf8 (encode IsText)

namespace Json

/-- The white space of JSON is white space of a text. -/
theorem exists_blank_text {front : List UInt8} (hfront : ∀ b ∈ front, isBlank b = true) :
    ∃ cs, front = encode cs ∧ ∀ c ∈ cs, Text.isBlank c = true := by
  refine ⟨front.map Char.ofUInt8, ?_, ?_⟩
  · induction front with
    | nil => rfl
    | cons b front ih =>
      have hb := ascii_of_isBlank (hfront b List.mem_cons_self)
      have hmore := ih fun d hd => hfront d (List.mem_cons_of_mem b hd)
      rw [List.map_cons, Text.Utf8.encode_cons, Text.Utf8.utf8EncodeChar_one hb, ← hmore]
      rfl
  · intro c hc
    obtain ⟨b, hb, rfl⟩ := List.mem_map.mp hc
    have hblank := hfront b hb
    simp only [isBlank, Bool.or_eq_true, beq_iff_eq] at hblank
    rcases hblank with ((rfl | rfl) | rfl) | rfl <;> decide

/-- The last character of closed octets is visible. -/
theorem Closed.getLast? {cs : List Char} (h : Closed (encode cs)) :
    ∀ c ∈ cs.getLast?, Text.isBlank c = false := by
  obtain ⟨front, b, hcs, ⟨ds, rfl⟩, hlow, hhigh⟩ := h
  have hb : encode [Char.ofUInt8 b] = [b] := by
    rw [Text.Utf8.encode_singleton]
    exact Text.Utf8.utf8EncodeChar_one hhigh
  rw [← hb, ← Text.Utf8.encode_append, ← Text.Utf8.decode?_eq_some_iff,
    Text.Utf8.decode?_encode] at hcs
  obtain rfl := Option.some.inj hcs
  intro c hc
  rw [List.getLast?_concat, Option.mem_some_iff] at hc
  rw [← hc]
  exact Text.isBlank_of_visible hlow hhigh

end Json

/-! ## Plain bodies -/

/-- The octets are UTF-8, and the white space around their text is such as JSON has. -/
def IsPlain (body : List UInt8) : Prop :=
  ∃ front cs back, body = front ++ (encode cs ++ back) ∧ (∀ b ∈ front, Json.isBlank b = true) ∧
    (∀ b ∈ back, Json.isBlank b = true) ∧ Text.trim cs = cs

theorem Field.bodyText_of_plain {front back : List UInt8} {cs : List Char}
    (hfront : ∀ b ∈ front, Json.isBlank b = true) (hback : ∀ b ∈ back, Json.isBlank b = true)
    (hcs : Text.trim cs = cs) : bodyText (front ++ (encode cs ++ back)) = cs := by
  obtain ⟨fs, rfl, hfs⟩ := Json.exists_blank_text hfront
  obtain ⟨bs, rfl, hbs⟩ := Json.exists_blank_text hback
  rw [bodyText, ← Text.Utf8.encode_append, ← Text.Utf8.encode_append,
    Text.Utf8.decodeLossy_encode, Text.trim_append hfs hbs, hcs]

namespace Json

variable {body : List UInt8} {j : Json}

/-- What is read as a value is white space and a text with none around it, and the text alone is
read as the same value. -/
theorem exists_text_of_value {κ α : Type} {D : Denotation κ α} (hD : LocalReaders D) {depth : Nat}
    {bytes rest : List UInt8} {x : α} (h : value D depth bytes = .ok (x, rest)) :
    ∃ front cs, bytes = front ++ (encode cs ++ rest) ∧ (∀ b ∈ front, isBlank b = true) ∧
      Text.trim cs = cs ∧ value D depth (encode cs) = .ok (x, []) := by
  obtain ⟨used, rfl, hclosed, hread⟩ := isLocal_value hD depth h
  obtain ⟨front, hsplit, hfront⟩ := exists_blank used
  have hself : value D depth (used ++ []) = .ok (x, []) := hread trivial
  rw [List.append_nil] at hself
  obtain ⟨b, bs, hskip, -, hinner⟩ := exists_of_value_eq_ok hself
  obtain ⟨hlow, hhigh⟩ := visible_of_value (isBlank_of_skipBlank hskip) hinner
  obtain ⟨fs, hfs, -⟩ := exists_blank_text hfront
  rw [hskip, hfs] at hsplit
  -- the text of the value begins with the character of its first octet
  have htext := hclosed.isText
  rw [hsplit] at htext
  obtain ⟨ds, rfl⟩ := (htext.of_encode_append).of_cons hhigh
  have hencode : encode (Char.ofUInt8 b :: ds) = b :: encode ds := by
    rw [Text.Utf8.encode_cons, Text.Utf8.utf8EncodeChar_one hhigh, List.singleton_append]
  rw [← hencode] at hsplit
  have htrim : Text.trim (Char.ofUInt8 b :: ds) = Char.ofUInt8 b :: ds := by
    refine Text.trim_eq_self_iff.mpr ⟨?_, ?_⟩
    · simpa using Text.isBlank_of_visible hlow hhigh
    · rw [hsplit, ← Text.Utf8.encode_append] at hclosed
      have hlast := hclosed.getLast?
      rwa [List.getLast?_append_of_ne_nil _ (List.cons_ne_nil _ _)] at hlast
  refine ⟨front, Char.ofUInt8 b :: ds, ?_, hfront, htrim, by rw [hencode, hinner]⟩
  rw [hsplit, hfs, List.append_assoc]

/-- Octets that write a value are plain, and their text writes this value. -/
theorem isPlain_of_ofBytes? (h : ofBytes? body = .ok j) :
    IsPlain body ∧ ofText? (Field.bodyText body) = .ok j := by
  obtain ⟨back, hvalue, hback⟩ := ofBytes?_eq_ok_iff_value.mp h
  obtain ⟨front, cs, rfl, hfront, htrim, hself⟩ := exists_text_of_value localReaders hvalue
  refine ⟨⟨front, cs, back, rfl, hfront, hback, htrim⟩, ?_⟩
  rw [Field.bodyText_of_plain hfront hback htrim, ofText?]
  exact ofBytes?_eq_ok_iff_value.mpr ⟨[], hself, fun b hb => absurd hb List.not_mem_nil⟩

/-- The octets of a plain body write the value that its text writes. -/
theorem ofBytes?_of_plain (hbody : IsPlain body) (h : ofText? (Field.bodyText body) = .ok j) :
    ofBytes? body = .ok j := by
  obtain ⟨front, cs, back, rfl, hfront, hback, hcs⟩ := hbody
  rw [Field.bodyText_of_plain hfront hback hcs, ofText?] at h
  obtain ⟨rest, hvalue, hrest⟩ := ofBytes?_eq_ok_iff_value.mp h
  obtain ⟨used, hused, hread⟩ := isLocal_value localReaders maxDepth hvalue
  have hblank : ∀ b ∈ rest ++ back, isBlank b = true := List.forall_mem_append.mpr ⟨hrest, hback⟩
  have hends : Numeral.Ends (rest ++ back) := by
    have hnil : Numeral.Ends (rest ++ back ++ []) := ends_append hblank trivial
    rwa [List.append_nil] at hnil
  refine ofBytes?_eq_ok_iff_value.mpr ⟨rest ++ back, ?_, hblank⟩
  rw [value_append hfront, hused, List.append_assoc]
  exact hread.read hends

/-- The octets of a body are JSON exactly if the body is plain and its text is JSON, and both
write the same value then. -/
theorem ofBytes?_eq_ok_iff :
    ofBytes? body = .ok j ↔ IsPlain body ∧ ofText? (Field.bodyText body) = .ok j :=
  ⟨isPlain_of_ofBytes?, fun h => ofBytes?_of_plain h.1 h.2⟩

end Json

/-! ## Indices -/

namespace Field

variable {p : Probe}

/-- An index leads somewhere exactly if the octets of the body write an array that is longer. -/
theorem resolve?_index_iff {i : Nat} : (∃ v, (body [.index i]).resolve? p = .ok v) ↔
    ∃ items, Json.ofBytes? p.body = .ok (.array items) ∧ i < items.length := by
  show (∃ v, bodyAt? [.index i] p.body = .ok v) ↔ _
  rw [bodyAt?]
  cases hroot : Json.ofBytes? p.body with
  | error fault => simp
  | ok root =>
    constructor
    · rintro ⟨v, h⟩
      obtain ⟨j, hwalk, -⟩ := map_eq_ok_iff.mp h
      obtain ⟨item, hstep, -⟩ := bind_eq_ok_iff.mp hwalk
      -- an index refuses whatever is no array
      cases root with
      | array items =>
        rw [Json.step?] at hstep
        cases hitem : items[i]? with
        | none =>
          rw [hitem] at hstep
          cases hstep
        | some item => exact ⟨items, rfl, (List.getElem?_eq_some_iff.mp hitem).1⟩
      | null | bool b | number n | string s | object ms => cases hstep
    · rintro ⟨items, hitems, hi⟩
      cases hitems
      refine ⟨items[i].toValue, ?_⟩
      dsimp only
      rw [Json.walk?, Json.step?, List.getElem?_eq_getElem hi]
      rfl

/-- The body counts as an array exactly if its text writes one. -/
theorem kind_rawBody_eq_array_iff : (rawBody p.body).kind = .array ↔
    ∃ items, Json.ofText? (bodyText p.body) = .ok (.array items) := by
  constructor
  · intro h
    cases hread : Json.ofText? (bodyText p.body) with
    | error fault =>
      rw [rawBody, hread] at h
      cases h
    | ok value =>
      rw [kind_rawBody hread] at h
      cases value with
      | array items => exact ⟨items, rfl⟩
      | number n => cases n <;> cases h
      | null | bool b | string s | object ms => cases h
  · rintro ⟨items, hread⟩
    rw [kind_rawBody hread]
    rfl

/-- The whole body always has a value. If this is no array, no index leads into the body. If it is
one, it has a length, and the indices below the length lead somewhere if the body is plain and
nowhere if it is not; the others lead nowhere. -/
theorem resolve?_index (operand : String) (p : Probe) :
    ∃ raw, (body []).resolve? p = .ok raw ∧
      (raw.kind ≠ .array → ∀ i, ¬ ∃ v, (body [.index i]).resolve? p = .ok v) ∧
      (raw.kind = .array → ∃ n, (body []).lengthOf? operand p = .ok (ofNat n .integer) ∧
        ∀ i, (∃ v, (body [.index i]).resolve? p = .ok v) ↔ i < n ∧ IsPlain p.body) := by
  refine ⟨rawBody p.body, rfl, fun hkind i hresolve => ?_, fun hkind => ?_⟩
  · obtain ⟨items, hread, -⟩ := resolve?_index_iff.mp hresolve
    exact hkind (kind_rawBody_eq_array_iff.mpr ⟨items, (Json.ofBytes?_eq_ok_iff.mp hread).2⟩)
  · obtain ⟨items, hread⟩ := kind_rawBody_eq_array_iff.mp hkind
    refine ⟨items.length, lengthOf?_of_hasLength operand (.array hread), fun i => ?_⟩
    rw [resolve?_index_iff]
    constructor
    · rintro ⟨items', hbytes, hi⟩
      obtain ⟨hplain, htext⟩ := Json.ofBytes?_eq_ok_iff.mp hbytes
      rw [hread] at htext
      cases htext
      exact ⟨hi, hplain⟩
    · rintro ⟨hi, hplain⟩
      exact ⟨items, Json.ofBytes?_eq_ok_iff.mpr ⟨hplain, hread⟩, hi⟩

/-- An array of one item with white space of JSON around it. -/
theorem resolve?_index_plain :
    let p := { Probe.empty with body := [0x20, 0x5B, 0x37, 0x5D, 0x0A] }
    (rawBody p.body).kind = .array ∧
      ∃ n, (body []).lengthOf? "[BODY]" p = .ok (ofNat n .integer) ∧
        ∀ i, (∃ v, (body [.index i]).resolve? p = .ok v) ↔ i < n := by
  intro p
  obtain ⟨raw, hraw, -, harray⟩ := resolve?_index "[BODY]" p
  cases hraw
  have hkind : (rawBody p.body).kind = .array := by decide +kernel
  have hplain : IsPlain p.body :=
    ⟨[0x20], ['[', '7', ']'], [0x0A], by decide, by simp [Json.isBlank], by simp [Json.isBlank],
      by decide⟩
  obtain ⟨n, hlength, hindex⟩ := harray hkind
  exact ⟨hkind, n, hlength, fun i => (hindex i).trans (and_iff_left hplain)⟩

/-- An octet that is no UTF-8 stands in a string of an array: the text is an array of one item, and
its first item is not there. -/
theorem resolve?_index_not_plain :
    let p := { Probe.empty with body := [0x5B, 0x22, 0x63, 0x61, 0x66, 0xE9, 0x22, 0x5D] }
    (rawBody p.body).kind = .array ∧
      (body []).lengthOf? "[BODY]" p = .ok (ofNat 1 .integer) ∧
      ((body [.index 0]).resolve? p).toBool = false := by
  decide +kernel

end Field
end HealthRules
