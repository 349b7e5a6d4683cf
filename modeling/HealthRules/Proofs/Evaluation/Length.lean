import Mathlib
import HealthRules.Proofs.Json.Parser

/-!
# The length of a field

`len(...)` of a field has an answer exactly if the field has a length (`Field.HasLength`): the
number of items of an array, or the number of characters of a string, of an address, or of the
compact text of an object or null (`Field.lengthOf?_spec`). The items of an array in a body are
counted in its printed text, which is read once more for it. This never fails, since what was read
from a body is read back from its text.
-/

namespace HealthRules

/-- The length of a JSON value, if it has one. -/
def Json.length? : Json → Option Nat
  | .array items => some items.length
  | .string s => some s.length
  | .object members => some (Json.object members).compact.length
  | .null => some Json.null.compact.length
  | .number _ | .bool _ => none

/-- Whether values of the kind have a length. -/
def Kind.isMeasured : Kind → Bool
  | string | ipAddress | array => true
  | integer | float | boolean | duration => false

variable (operand : String)

theorem Value.length?_of_not_isMeasured {v : Value} (h : v.kind.isMeasured = false) :
    v.length? operand = .error (.wrongKind operand v.kind) := by
  obtain ⟨text, kind⟩ := v
  unfold length?
  cases kind with
  | integer | float | boolean | duration => rfl
  | ipAddress | string | array => cases h

/-- The length of a value that counts as an array and is read as one. -/
theorem Value.length?_of_array {v : Value} {items : List Json} (hkind : v.kind = .array)
    (hread : Json.ofText? v.text.toList = .ok (.array items)) :
    v.length? operand = .ok items.length := by
  rw [length?, hkind]
  dsimp only
  rw [hread]

/-! ## JSON values -/

namespace Json

/-- An array is read back with as many items. -/
theorem length?_toValue_array {items : List Json} (h : Fits maxDepth (.array items)) :
    (toValue (.array items)).length? operand = .ok items.length := by
  have hread : ofText? (toValue (.array items)).text.toList =
      .ok (.array (items.map faithful.image)) := by
    show ofText? (String.ofList (compact (.array items))).toList = _
    rw [String.toList_ofList, ofText?_compact h, Faithful.image, Faithful.images_eq]
    rfl
  rw [Value.length?_of_array operand rfl hread, List.length_map]

/-- A value that can be read back has its length as a value of a condition. -/
theorem length?_toValue {j : Json} (h : Fits maxDepth j) :
    (∃ n, j.length? = some n ∧ j.toValue.length? operand = .ok n) ∨
      j.length? = none ∧ j.toValue.kind.isMeasured = false := by
  cases j with
  | array items => exact .inl ⟨_, rfl, length?_toValue_array operand h⟩
  | string s => exact .inl ⟨_, rfl, rfl⟩
  | object members =>
    refine .inl ⟨_, rfl, ?_⟩
    show Except.ok (String.ofList (Json.object members).compact).length = _
    rw [String.length_ofList]
  | null => exact .inl ⟨_, rfl, rfl⟩
  | number n => cases n <;> exact .inr ⟨rfl, rfl⟩
  | bool b => exact .inr ⟨rfl, rfl⟩

end Json

/-! ## Fields -/

namespace Field

/-- The length that a field of a probe has. -/
inductive HasLength (p : Probe) : Field → Nat → Prop
  /-- A path leads to a value with a length. -/
  | path {path : BodyPath} {root j : Json} {n : Nat} (hpath : path ≠ [])
    (hroot : Json.ofBytes? p.body = .ok root) (hwalk : root.walk? path = .ok j)
    (hlength : j.length? = some n) : HasLength p (.body path) n
  /-- The whole body writes an array. -/
  | array {items : List Json} (h : Json.ofText? (bodyText p.body) = .ok (.array items)) :
    HasLength p (.body []) items.length
  /-- The whole body counts as a string. -/
  | text (h : (rawBody p.body).kind = .string) : HasLength p (.body []) (bodyText p.body).length
  | ip : HasLength p .ip p.ip.length
  | dnsRcode : HasLength p .dnsRcode p.dnsRcode.length

variable {p : Probe}

theorem resolve?_path {path : BodyPath} (hpath : path ≠ []) {root : Json}
    (hroot : Json.ofBytes? p.body = .ok root) :
    (body path).resolve? p = (root.walk? path).map Json.toValue := by
  obtain ⟨step, path, rfl⟩ := List.exists_cons_of_ne_nil hpath
  show bodyAt? (step :: path) p.body = _
  rw [bodyAt?, hroot]

/-- In octets that are not JSON no path leads anywhere. -/
theorem resolve?_path_of_notJson {path : BodyPath} (hpath : path ≠ []) {fault : Json.Located}
    (hroot : Json.ofBytes? p.body = .error fault) :
    (body path).resolve? p = .error (.notJson fault) := by
  obtain ⟨step, path, rfl⟩ := List.exists_cons_of_ne_nil hpath
  show bodyAt? (step :: path) p.body = _
  rw [bodyAt?, hroot]

theorem fits_of_walk? {path : BodyPath} {root j : Json}
    (hroot : Json.ofBytes? p.body = .ok root) (hwalk : root.walk? path = .ok j) :
    Json.Fits Json.maxDepth j :=
  (Json.fits_of_ofBytes? hroot).of_walk? hwalk

theorem kind_rawBody {value : Json} (h : Json.ofText? (bodyText p.body) = .ok value) :
    (rawBody p.body).kind = value.toValue.kind := by
  rw [rawBody, h]

theorem text_rawBody : (rawBody p.body).text.toList = bodyText p.body :=
  String.toList_ofList

/-- A field with a length is resolved to a value with this length. -/
theorem HasLength.resolve? {field : Field} {n : Nat} (h : HasLength p field n) :
    ∃ v, field.resolve? p = .ok v ∧ v.length? operand = .ok n := by
  cases h with
  | @path path root j n hpath hroot hwalk hlength =>
    refine ⟨j.toValue, by rw [resolve?_path hpath hroot, hwalk]; rfl, ?_⟩
    rcases Json.length?_toValue operand (fits_of_walk? hroot hwalk) with
      ⟨m, hm, hvalue⟩ | ⟨hnone, -⟩
    · rw [hlength, Option.some.injEq] at hm
      rw [hvalue, hm]
    · rw [hlength] at hnone
      cases hnone
  | array h =>
    have hread := h
    rw [← text_rawBody] at hread
    exact ⟨_, rfl, Value.length?_of_array operand (kind_rawBody h) hread⟩
  | text h =>
    refine ⟨_, rfl, ?_⟩
    unfold Value.length?
    rw [h]
    show Except.ok (rawBody p.body).text.length = _
    rw [← String.length_toList, text_rawBody]
  | ip => exact ⟨_, rfl, rfl⟩
  | dnsRcode => exact ⟨_, rfl, rfl⟩

/-- A field that is resolved has a length or a kind without one. -/
theorem hasLength_or_of_resolve? {field : Field} {v : Value} (h : field.resolve? p = .ok v) :
    (∃ n, HasLength p field n) ∨ v.kind.isMeasured = false := by
  cases field with
  | status | connected | responseTime | certificateExpiration | domainExpiration =>
    cases h
    exact .inr rfl
  | ip => exact .inl ⟨_, .ip⟩
  | dnsRcode => exact .inl ⟨_, .dnsRcode⟩
  | body path =>
    rcases eq_or_ne path [] with rfl | hpath
    · -- the whole body is there whether it writes a value or not
      cases h
      cases hread : Json.ofText? (bodyText p.body) with
      | error fault =>
        have hkind : (rawBody p.body).kind = .string := by
          rw [rawBody, hread]
        exact .inl ⟨_, .text hkind⟩
      | ok value =>
        have hkind := kind_rawBody hread
        cases value with
        | array items => exact .inl ⟨_, .array hread⟩
        | string s | object members | null => exact .inl ⟨_, .text hkind⟩
        | number n =>
          rw [hkind]
          cases n <;> exact .inr rfl
        | bool b =>
          rw [hkind]
          exact .inr rfl
    · -- a path has led to a value of a body that is JSON
      cases hroot : Json.ofBytes? p.body with
      | error fault =>
        rw [resolve?_path_of_notJson hpath hroot] at h
        cases h
      | ok root =>
        rw [resolve?_path hpath hroot] at h
        obtain ⟨j, hwalk, rfl⟩ := map_eq_ok_iff.mp h
        rcases Json.length?_toValue "" (fits_of_walk? hroot hwalk) with
          ⟨n, hn, -⟩ | ⟨-, hkind⟩
        · exact .inl ⟨n, .path hpath hroot hwalk hn⟩
        · exact .inr hkind

/-! ## The answer -/

variable {field : Field}

/-- A field that has a length, in any of the ways, is measured. -/
theorem lengthOf?_of_hasLength {n : Nat} (h : HasLength p field n) :
    field.lengthOf? operand p = .ok (ofNat n .integer) := by
  obtain ⟨v, hresolve, hlength⟩ := h.resolve? operand
  rw [lengthOf?, hresolve]
  dsimp only
  rw [hlength]

/-- A value that is neither a list nor a text is refused for its kind. -/
theorem lengthOf?_of_not_isMeasured {v : Value} (h : field.resolve? p = .ok v)
    (hkind : v.kind.isMeasured = false) :
    field.lengthOf? operand p = .error (.noLength (.wrongKind operand v.kind)) := by
  rw [lengthOf?, h]
  dsimp only
  rw [Value.length?_of_not_isMeasured operand hkind]

theorem lengthOf?_of_unresolved {fault : PathFault} (h : field.resolve? p = .error fault) :
    field.lengthOf? operand p = .error (.unresolved operand fault) := by
  rw [lengthOf?, h]

/-- There is no fourth case. -/
theorem lengthOf?_cases (operand : String) (p : Probe) (field : Field) :
    (∃ n, HasLength p field n ∧ field.lengthOf? operand p = .ok (ofNat n .integer)) ∨
    (∃ v, (field.resolve? p = .ok v ∧ v.kind.isMeasured = false) ∧
      field.lengthOf? operand p = .error (.noLength (.wrongKind operand v.kind))) ∨
    ∃ fault, field.resolve? p = .error fault ∧
      field.lengthOf? operand p = .error (.unresolved operand fault) := by
  cases h : field.resolve? p with
  | error fault => exact .inr (.inr ⟨fault, rfl, lengthOf?_of_unresolved operand h⟩)
  | ok v =>
    rcases hasLength_or_of_resolve? h with ⟨n, hn⟩ | hkind
    · exact .inl ⟨n, hn, lengthOf?_of_hasLength operand hn⟩
    · exact .inr (.inl ⟨v, ⟨rfl, hkind⟩, lengthOf?_of_not_isMeasured operand h hkind⟩)

/-- The length of a field is given exactly if it has one, as a whole number. A field of a kind
without length and a path that leads nowhere are errors of their own, and there are no others: what
counts as an array is always read as one again. -/
theorem lengthOf?_spec (operand : String) (p : Probe) (field : Field) :
    (∀ v, field.lengthOf? operand p = .ok v ↔ ∃ n, HasLength p field n ∧ v = ofNat n .integer) ∧
    (∀ e, field.lengthOf? operand p = .error e ↔
      (∃ v, (field.resolve? p = .ok v ∧ v.kind.isMeasured = false) ∧
        e = .noLength (.wrongKind operand v.kind)) ∨
      ∃ fault, field.resolve? p = .error fault ∧ e = .unresolved operand fault) ∧
    ∀ o, field.lengthOf? operand p ≠ .error (.noLength (.badArray o)) := by
  -- a result is one of three, so each equivalence is read off them in both directions
  refine ⟨fun v => ⟨?_, ?_⟩, fun e => ⟨?_, ?_⟩, ?_⟩
  · intro h
    rcases lengthOf?_cases operand p field with ⟨n, hn, heq⟩ | ⟨w, -, heq⟩ | ⟨fault, -, heq⟩
    all_goals rw [heq] at h
    · exact ⟨n, hn, (Except.ok.inj h).symm⟩
    · cases h
    · cases h
  · rintro ⟨n, hn, rfl⟩
    exact lengthOf?_of_hasLength operand hn
  · intro h
    rcases lengthOf?_cases operand p field with ⟨n, -, heq⟩ | ⟨w, hw, heq⟩ | ⟨fault, hfault, heq⟩
    all_goals rw [heq] at h
    · cases h
    · exact .inl ⟨w, hw, (Except.error.inj h).symm⟩
    · exact .inr ⟨fault, hfault, (Except.error.inj h).symm⟩
  · rintro (⟨v, ⟨hv, hkind⟩, rfl⟩ | ⟨fault, hfault, rfl⟩)
    · exact lengthOf?_of_not_isMeasured operand hv hkind
    · exact lengthOf?_of_unresolved operand hfault
  · intro o h
    rcases lengthOf?_cases operand p field with ⟨n, -, heq⟩ | ⟨w, -, heq⟩ | ⟨fault, -, heq⟩
    all_goals
      rw [heq] at h
      cases h

end Field
end HealthRules
