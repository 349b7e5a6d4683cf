import Mathlib
import HealthRules.Proofs.Comparison.Literals
import HealthRules.Proofs.Evaluation.BodyIntegers
import HealthRules.Proofs.Evaluation.Durations
import HealthRules.Proofs.Evaluation.RawBody
import HealthRules.Proofs.Json.Size

/-!
# What kinds promise

The kind of a field says what its text reads as (`Value.Truthful`): a truth value, a whole number
with nothing around it, a JSON array. For a path into the body the text is printed from the value.
The body without a path is different: its kind is that of the value which the text writes, while the
text stays as it came. The promise holds for it as well, because a truth value and a whole number
have one spelling (`Json.trim_of_hasOneText`).

Literals of kind duration carry units, and other values of this kind do not. All the same, two
operands that are whole numbers or durations have an order, wherever they come from
(`Operand.exists_milliseconds?`), and so a condition between them has an answer.
-/

namespace HealthRules

open Text.Utf8 (encode)

/-! ## The text of the body -/

namespace Json

theorem HasOneText.isBlank_of_mem {j : Json} (hj : j.HasOneText) {c : Char}
    (hc : c ∈ j.compact) : Text.isBlank c = false := by
  have hword : ∀ cs : List Char, cs.all (fun c => !Text.isBlank c) = true → c ∈ cs →
      Text.isBlank c = false := by
    intro cs hcs hmem
    have hvisible := List.all_eq_true.mp hcs c hmem
    rwa [Bool.not_eq_true'] at hvisible
  cases hj with
  | null => exact hword _ (by decide) hc
  | bool b => exact hword _ (by cases b <;> decide) hc
  | integer n => exact Number.isBlank_of_mem_ofInt hc

theorem HasOneText.text_toValue {j : Json} (hj : j.HasOneText) :
    j.toValue.text.toList = j.compact := by
  cases hj with
  | null => rfl
  | bool b => cases b <;> rfl
  | integer n => exact String.toList_ofList

/-- A text that is read as a value with one spelling has this spelling between white space. -/
theorem trim_of_hasOneText {cs : List Char} {j : Json} (h : ofText? cs = .ok j)
    (hj : j.HasOneText) : Text.trim cs = j.compact := by
  obtain ⟨back, hvalue, hback⟩ := ofBytes?_eq_ok_iff_value.mp h
  obtain ⟨front, hfront, hblank⟩ := exists_blank (encode cs)
  rw [encode_compact_of_readAs (readAs_of_value hvalue) hj] at hfront
  have htrim : Text.trim j.compact = j.compact := Text.trim_eq_self_iff.mpr
    ⟨fun c hc => hj.isBlank_of_mem (List.mem_of_mem_head? hc),
      fun c hc => hj.isBlank_of_mem (List.mem_of_getLast? hc)⟩
  obtain ⟨fs, rfl, hfs⟩ := exists_blank_text hblank
  obtain ⟨bs, rfl, hbs⟩ := exists_blank_text hback
  rw [← Text.Utf8.encode_append, ← Text.Utf8.encode_append, ← Text.Utf8.decode?_eq_some_iff,
    Text.Utf8.decode?_encode] at hfront
  rw [Option.some.inj hfront, Text.trim_append hfs hbs, htrim]

end Json

/-! ## Truthful values -/

/-- What a kind says about the text of a value that was read from a probe. A whole number is below
2 ^ 74, which no field of a probe exceeds. -/
def Kind.Describes : Kind → List Char → Prop
  | boolean, cs => cs = "true".toList ∨ cs = "false".toList
  | integer, cs => ∃ n : Int, cs = Number.ofInt n ∧ n.natAbs < 2 ^ 74
  | duration, cs => ∃ n : Nat, cs = Number.ofNat n ∧ n < 2 ^ 74
  | array, cs => ∃ items, Json.ofText? cs = .ok (.array items)
  | float, _ | ipAddress, _ | string, _ => True

/-- The text of a value is as its kind says. -/
def Value.Truthful (v : Value) : Prop :=
  v.kind.Describes v.text.toList

namespace Json

/-- A value that was read from a body has the text that its kind says. -/
theorem truthful_toValue {j : Json} (h : Fits maxDepth j) : j.toValue.Truthful := by
  cases j with
  | null | string _ | object _ => trivial
  | bool b =>
    cases b
    · exact .inr rfl
    · exact .inl rfl
  | number n =>
    cases n with
    | float x => trivial
    | integer n =>
      cases h with
      | number hn =>
        obtain ⟨⟨hlow, hhigh⟩⟩ := hn
        exact ⟨n, String.toList_ofList, by omega⟩
  | array items =>
    refine ⟨items.map faithful.image, ?_⟩
    show ofText? (String.ofList (compact (.array items))).toList = _
    rw [String.toList_ofList, ofText?_compact h, Faithful.image, Faithful.images_eq]
    rfl

end Json

namespace Field

variable {p : Probe} {f : Field} {v : Value}

/-- A whole number of a field has one kind or the other. -/
theorem truthful_ofNat {n : Nat} (hn : n < 2 ^ 74) :
    (ofNat n .integer).Truthful ∧ (ofNat n .duration).Truthful :=
  ⟨⟨n, String.toList_ofList, hn⟩, ⟨n, String.toList_ofList, hn⟩⟩

/-- The text of the body is as the value that it writes says, if it writes one. -/
theorem truthful_rawBody (body : List UInt8) : (rawBody body).Truthful := by
  show (rawBody body).kind.Describes (String.ofList (bodyText body)).toList
  rw [String.toList_ofList, rawBody]
  dsimp only
  cases hread : Json.ofText? (bodyText body) with
  | error fault => trivial
  | ok j =>
    -- a value with one spelling has the text of the body as its own
    have hone : j.HasOneText → j.toValue.text.toList = bodyText body := by
      intro hj
      rw [hj.text_toValue, ← Json.trim_of_hasOneText hread hj]
      exact Text.trim_trim _
    have hvalue : j.toValue.kind.Describes j.toValue.text.toList :=
      Json.truthful_toValue (Json.fits_of_ofBytes? hread)
    cases j with
    | null | string _ | object _ => trivial
    | bool b =>
      rw [hone (.bool b)] at hvalue
      exact hvalue
    | number n =>
      cases n with
      | float x => trivial
      | integer n =>
        rw [hone (.integer n)] at hvalue
        exact hvalue
    | array items => exact ⟨items, hread⟩

/-- Whatever a field resolves to has the kind that its text shows, for each of the tokens. -/
theorem truthful_resolve? (h : f.resolve? p = .ok v) : v.Truthful := by
  cases f with
  | status =>
    cases h
    have hstatus := p.httpStatus.toNat_lt
    exact (truthful_ofNat (by omega)).1
  | ip | dnsRcode =>
    cases h
    trivial
  | connected =>
    cases h
    show Kind.Describes .boolean (ofBool p.connected).text.toList
    cases p.connected
    · exact .inr rfl
    · exact .inl rfl
  | responseTime =>
    cases h
    exact (truthful_ofNat p.duration.wholeMilliseconds_lt).1
  | certificateExpiration =>
    cases h
    exact (truthful_ofNat p.certificateExpiration.wholeMilliseconds_lt).2
  | domainExpiration =>
    cases h
    exact (truthful_ofNat p.domainExpiration.wholeMilliseconds_lt).2
  | body path =>
    by_cases hpath : path = []
    · rw [hpath] at h
      cases h
      exact truthful_rawBody p.body
    · cases hroot : Json.ofBytes? p.body with
      | error fault =>
        rw [resolve?_path_of_notJson hpath hroot] at h
        cases h
      | ok root =>
        rw [resolve?_path hpath hroot] at h
        obtain ⟨j, hwalk, rfl⟩ := map_eq_ok_iff.mp h
        exact Json.truthful_toValue (fits_of_walk? hroot hwalk)

end Field

/-! ## Bounds -/

/-- No part of a probe has more octets or characters than 63 bits count. -/
structure Probe.Bounded (p : Probe) : Prop where
  body : p.body.length < 2 ^ 63
  ip : p.ip.length < 2 ^ 63
  dnsRcode : p.dnsRcode.length < 2 ^ 63

theorem Field.length_bodyText_le (body : List UInt8) : (bodyText body).length ≤ body.length := by
  obtain ⟨front, back, hcs, -, -⟩ := Text.exists_trim (Text.Utf8.decodeLossy body)
  have hlength := congrArg List.length hcs
  rw [List.length_append, List.length_append] at hlength
  have hlossy := Text.Utf8.length_decodeLossy_le body
  rw [bodyText]
  omega

/-- The length of a value is at most that of its text. -/
theorem Json.length?_le {j : Json} {n : Nat} (h : j.length? = some n) : n ≤ j.compact.length := by
  cases j with
  | array items =>
    cases h
    cases items with
    | nil => exact Nat.zero_le _
    | cons item items =>
      rw [length_compact_array (List.cons_ne_nil item items)]
      exact (length_compactItems (item :: items)).le
  | string s =>
    cases h
    exact (Quoted.length_quote_bounds s).1
  | object members | null =>
    cases h
    exact Nat.le_refl _
  | number _ | bool _ => cases h

/-- On a bounded probe a length has 74 bits at most, since it counts no more than the octets that
the field was read from. -/
theorem Field.HasLength.lt {p : Probe} {f : Field} {n : Nat} (h : HasLength p f n)
    (hp : p.Bounded) : n < 2 ^ 74 := by
  obtain ⟨hbody, hip, hdns⟩ := hp
  -- each of the texts is a fixed multiple of the octets that were read, at most
  cases h with
  | @path path root j n hpath hroot hwalk hlength =>
    have hj := Json.length?_le hlength
    have hwalk := Json.length_compact_of_walk? hwalk
    have hroot := Json.length_compact_of_ofBytes? hroot
    omega
  | @array items h =>
    have hitems := Json.length?_le (j := .array items) rfl
    have hcompact := Json.length_compact_of_ofBytes? h
    have hoctets := Text.Utf8.length_encode_le (bodyText p.body)
    have htext := length_bodyText_le p.body
    omega
  | text h =>
    have htext := length_bodyText_le p.body
    omega
  | ip => omega
  | dnsRcode => omega

/-! ## The order of numbers and durations -/

namespace Value

variable {v w : Value}

/-- Two values have an order if both have milliseconds. -/
theorem exists_order? {x y : Number.Binary64} (hv : v.milliseconds? = some x)
    (hw : w.milliseconds? = some y) : ∃ o, v.order? w = some o := by
  rw [← Option.isSome_iff_exists, isSome_order?]
  exact ⟨Option.isSome_of_eq_some hv, Option.isSome_of_eq_some hw⟩

theorem exists_milliseconds?_of_ofInt {n : Int} (hv : v.text.toList = Number.ofInt n) {k : Nat}
    (hn : n.natAbs < 2 ^ k) (hk : k < 1024) : ∃ x, v.milliseconds? = some x := by
  obtain ⟨x, hx, -⟩ := Number.binary64?_ofInt hn hk
  refine ⟨x, ?_⟩
  rw [milliseconds?, hv, Duration.literal?_ofInt]
  exact hx

/-- The text of an integer or of a duration is a finite number, so that comparing two of them is no
mismatch. -/
theorem Truthful.exists_milliseconds? (h : v.Truthful)
    (hkind : v.kind = .integer ∨ v.kind = .duration) : ∃ x, v.milliseconds? = some x := by
  unfold Truthful at h
  rcases hkind with hkind | hkind
  · rw [hkind] at h
    obtain ⟨n, htext, hn⟩ := h
    exact exists_milliseconds?_of_ofInt htext hn (by decide)
  · rw [hkind] at h
    obtain ⟨n, htext, hn⟩ := h
    exact exists_milliseconds?_of_ofInt (n := n) htext hn (by decide)

theorem exists_milliseconds?_literal {text : String}
    (hkind : (literal text).kind = .integer ∨ (literal text).kind = .duration) :
    ∃ x, (literal text).milliseconds? = some x := by
  have hnumeric : (literal text).kind.isNumeric = true := by
    rcases hkind with hkind | hkind <;> rw [hkind] <;> rfl
  rw [← Option.isSome_iff_exists, isSome_milliseconds?]
  exact LiteralClass.isNumeric_infer_iff.mp hnumeric

end Value

/-- An operand that is a whole number or a duration has milliseconds, wherever it comes from. -/
theorem Operand.exists_milliseconds? {o : Operand} {p : Probe} (hp : p.Bounded) {v : Value}
    (h : (o.comparand p).1 = .value (some v)) (hkind : v.kind = .integer ∨ v.kind = .duration) :
    ∃ x, v.milliseconds? = some x := by
  obtain ⟨text, meaning⟩ := o
  unfold comparand at h
  -- a number comes from a field, a length or a literal
  cases meaning with
  | field field =>
    dsimp only at h
    cases hresolve : field.resolve? p with
    | error fault =>
      rw [hresolve] at h
      cases h
    | ok w =>
      rw [hresolve] at h
      cases h
      exact (Field.truthful_resolve? hresolve).exists_milliseconds? hkind
  | length field =>
    dsimp only at h
    rcases Field.lengthOf?_cases text p field with ⟨n, hn, hlength⟩ | ⟨w, -, hlength⟩ |
      ⟨fault, -, hlength⟩
    all_goals rw [hlength] at h
    · cases h
      exact (Field.truthful_ofNat (hn.lt hp)).1.exists_milliseconds? hkind
    · cases h
    · cases h
  | presence field =>
    cases h
    rcases hkind with hkind | hkind <;> cases hkind
  | anyOf options | pattern glob => cases h
  | literal text =>
    cases h
    exact Value.exists_milliseconds?_literal hkind

namespace Rule

/-- The kind that a token has for a probe says what its text is. Two operands that are whole numbers
or durations, from tokens, lengths or literals, have an order, so a condition between them is
decided without an error. -/
theorem evaluate_kinds (p : Probe) :
    (∀ (token : String) (v : Value), Field.resolveToken? token p = some v → v.Truthful) ∧
    (p.Bounded → ∀ (r : Rule) (c : Condition) (v w : Value), Condition.ofText? r.body = some c →
      (c.left.comparand p).1 = .value (some v) → (c.right.comparand p).1 = .value (some w) →
      v.kind = .integer ∨ v.kind = .duration → w.kind = .integer ∨ w.kind = .duration →
      ∀ redact : Bool, (r.evaluate p redact).errors = []) := by
  constructor
  · intro token v h
    obtain ⟨f, -, hresolve⟩ := Option.bind_eq_some_iff.mp h
    cases hf : f.resolve? p with
    | error fault =>
      rw [hf] at hresolve
      cases hresolve
    | ok w =>
      rw [hf] at hresolve
      cases hresolve
      exact Field.truthful_resolve? hf
  · intro hp r c v w hread hleft hright hv hw redact
    obtain ⟨x, hx⟩ := Operand.exists_milliseconds? hp hleft hv
    obtain ⟨y, hy⟩ := Operand.exists_milliseconds? hp hright hw
    obtain ⟨o, horder⟩ := Value.exists_order? hx hy
    have hcompare := compareValues_of_order horder c.operator
    exact (evaluate_of_values hread hleft hright hcompare redact).2

/-- A body that writes a whole number with white space around it, and a literal with units. -/
theorem evaluate_kinds_rawBody :
    let p := { Probe.empty with body := [0x20, 0x31, 0x32, 0x0A] }
    let r : Rule := ⟨"[BODY] <= 1h30m"⟩
    Value.Truthful ⟨"12", .integer⟩ ∧ (r.evaluate p false).errors = [] := by
  intro p r
  obtain ⟨hkind, herrors⟩ := evaluate_kinds p
  have hbody : Field.resolveToken? "[BODY]" p = some ⟨"12", .integer⟩ := by decide +kernel
  have hread : Condition.ofText? r.body = some ⟨⟨"[BODY]", .field (.body [])⟩, .le,
      ⟨"1h30m", .literal "1h30m"⟩⟩ := by decide +kernel
  have hleft : (Operand.comparand ⟨"[BODY]", .field (.body [])⟩ p).1 =
      .value (some ⟨"12", .integer⟩) := by decide +kernel
  have hright : (Operand.comparand ⟨"1h30m", .literal "1h30m"⟩ p).1 =
      .value (some ⟨"1h30m", .duration⟩) := by decide +kernel
  exact ⟨hkind _ _ hbody, herrors ⟨by decide, by decide, by decide⟩ r _ _ _ hread hleft hright
    (.inl rfl) (.inr rfl) false⟩

end Rule
end HealthRules
