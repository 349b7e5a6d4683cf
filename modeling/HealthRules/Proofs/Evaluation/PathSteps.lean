import Mathlib
import HealthRules.Proofs.Evaluation.MissingValues
import HealthRules.Proofs.Grammar.Token

/-!
# Paths step by step

A path is walked from the root of the body. Walking two paths one behind the other is walking the
second from where the first leads (`Json.walk?_append`), so whatever a path leads through is there
as well: `has(...)` of a path never holds without that of the paths which it goes on from. A path
that leads nowhere has a first step that cannot be taken, and this step alone decides what is
reported (`Json.walk?_eq_error_iff`, `Field.resolve?_path_steps`).

The body without a path is no walk: it is a text, which is there even if the body is not JSON.
-/

namespace HealthRules

/-! ## One step -/

namespace Json

/-- A step that cannot be taken from a value, and what is reported of it. -/
inductive Refuses : Json → Step → PathFault → Prop
  /-- A key leads into an object only. -/
  | notObject {j : Json} {name : String} (h : ∀ members, j ≠ .object members) :
      Refuses j (.key name) (.notObject name)
  | noKey {members : List (String × Json)} {name : String} (h : ∀ value, (name, value) ∉ members) :
      Refuses (.object members) (.key name) (.noKey name)
  /-- An index leads into an array only. -/
  | notArray {j : Json} {n : Nat} (h : ∀ items, j ≠ .array items) :
      Refuses j (.index n) (.notArray n)
  | outOfRange {items : List Json} {n : Nat} (h : items.length ≤ n) :
      Refuses (.array items) (.index n) (.outOfRange n items.length)

variable {j : Json} {fault : PathFault}

theorem member?_eq_none_iff {name : String} {members : List (String × Json)} :
    member? name members = none ↔ ∀ value, (name, value) ∉ members := by
  rw [member?, List.lookup_eq_none_iff]
  constructor
  · intro h value hmem
    exact absurd (h _ hmem) (by simp)
  · intro h entry hmem
    rw [bne_iff_ne]
    rintro rfl
    exact h _ hmem

/-- A value that refuses a step for a reason fails there with this reason. -/
theorem Refuses.step?_eq_error {step : Step} (h : j.Refuses step fault) :
    step? step j = .error fault := by
  cases h with
  | notObject h =>
    cases j with
    | object members => exact absurd rfl (h members)
    | null | bool _ | number _ | string _ | array _ => rfl
  | noKey h => rw [step?, member?_eq_none_iff.mpr h]
  | notArray h =>
    cases j with
    | array items => exact absurd rfl (h items)
    | null | bool _ | number _ | string _ | object _ => rfl
  | outOfRange h => rw [step?, List.getElem?_eq_none h]

/-- A step fails for no other reason. -/
theorem refuses_of_step? {step : Step} (h : step? step j = .error fault) :
    j.Refuses step fault := by
  unfold step? at h
  split at h
  · next name members =>
    split at h
    · cases h
    · next hnone =>
      cases h
      exact .noKey (member?_eq_none_iff.mp hnone)
  · next name hother =>
    cases h
    exact .notObject hother
  · next n items =>
    split at h
    · cases h
    · next hnone =>
      cases h
      exact .outOfRange (List.getElem?_eq_none_iff.mp hnone)
  · next n hother =>
    cases h
    exact .notArray hother

/-- A step fails exactly if the value refuses it. -/
theorem step?_eq_error_iff {step : Step} : step? step j = .error fault ↔ j.Refuses step fault :=
  ⟨refuses_of_step?, Refuses.step?_eq_error⟩

/-! ## Walks -/

/-- Two paths one behind the other. -/
theorem walk?_append (front back : BodyPath) (j : Json) :
    j.walk? (front ++ back) = (j.walk? front).bind (walk? back) := by
  induction front generalizing j with
  | nil => rfl
  | cons step front ih =>
    rw [List.cons_append, walk?, walk?]
    cases step? step j with
    | error fault => rfl
    | ok next => exact ih next

/-- A path in two parts leads to a value exactly if the first part leads to one from which the
second part goes on. -/
theorem walk?_append_eq_ok_iff {front back : BodyPath} {last : Json} :
    j.walk? (front ++ back) = .ok last ↔
      ∃ mid, j.walk? front = .ok mid ∧ mid.walk? back = .ok last := by
  rw [walk?_append]
  exact bind_eq_ok_iff

/-- A walk up to a step that is refused fails, whatever the path goes on with. -/
theorem walk?_of_refuses {front : BodyPath} {step : Step} {mid : Json}
    (hfront : j.walk? front = .ok mid) (h : mid.Refuses step fault) (back : BodyPath) :
    j.walk? (front ++ step :: back) = .error fault := by
  rw [walk?_append, hfront]
  show (step? step mid).bind (walk? back) = .error fault
  rw [step?_eq_error_iff.mpr h]
  rfl

/-- A walk fails at the first step that is refused. -/
theorem walk?_eq_error_iff {path : BodyPath} : j.walk? path = .error fault ↔
    ∃ front step back mid, path = front ++ step :: back ∧ j.walk? front = .ok mid ∧
      mid.Refuses step fault := by
  constructor
  · intro h
    -- the later steps are taken from where the first one leads, so the value varies
    induction path generalizing j with
    | nil => cases h
    | cons step path ih =>
      rw [walk?] at h
      cases hstep : step? step j with
      | error fault' =>
        rw [hstep] at h
        cases h
        exact ⟨[], step, path, j, rfl, rfl, step?_eq_error_iff.mp hstep⟩
      | ok next =>
        rw [hstep] at h
        obtain ⟨front, step', back, mid, rfl, hfront, hrefuses⟩ := ih h
        refine ⟨step :: front, step', back, mid, rfl, ?_, hrefuses⟩
        rw [walk?, hstep]
        exact hfront
  · rintro ⟨front, step, back, mid, rfl, hfront, hrefuses⟩
    exact walk?_of_refuses hfront hrefuses back

end Json

/-! ## Fields of the body -/

namespace BodyPath

/-- The texts of two paths one behind the other write the two paths one behind the other. -/
theorem Written.append {cs ds : List Char} {front back : BodyPath} (hfront : Written cs front)
    (hback : Written ds back) : Written (cs ++ ds) (front ++ back) := by
  induction hfront with
  | nil => exact hback
  | cons hstep _ ih =>
    rw [List.append_assoc]
    exact .cons hstep ih

end BodyPath

namespace Field

variable {p : Probe} {root : Json} {path : BodyPath}

/-- A path into a body that parses resolves to what it leads to. -/
theorem resolve?_path_eq_ok_iff (hroot : Json.ofBytes? p.body = .ok root) (hpath : path ≠ [])
    {v : Value} :
    (body path).resolve? p = .ok v ↔ ∃ j, root.walk? path = .ok j ∧ v = j.toValue := by
  rw [resolve?_path hpath hroot, map_eq_ok_iff]
  exact exists_congr fun j => and_congr_right fun _ => eq_comm

theorem resolve?_path_eq_error_iff (hroot : Json.ofBytes? p.body = .ok root) (hpath : path ≠ [])
    {fault : PathFault} :
    (body path).resolve? p = .error fault ↔ root.walk? path = .error fault := by
  rw [resolve?_path hpath hroot]
  cases root.walk? path <;> simp [Except.map]

theorem toBool_resolve?_iff {f : Field} :
    (f.resolve? p).toBool = true ↔ ∃ v, f.resolve? p = .ok v := by
  cases f.resolve? p <;> simp [Except.toBool]

/-- What a path goes on from is there if the path leads somewhere. -/
theorem exists_resolve?_of_append {front back : BodyPath} {v : Value}
    (h : (body (front ++ back)).resolve? p = .ok v) : ∃ w, (body front).resolve? p = .ok w := by
  by_cases hfront : front = []
  · -- without a path the body is a text, and there
    rw [hfront]
    exact ⟨_, rfl⟩
  have hpath : front ++ back ≠ [] := List.append_ne_nil_of_left_ne_nil hfront back
  cases hroot : Json.ofBytes? p.body with
  | error fault =>
    rw [resolve?_path_of_notJson hpath hroot] at h
    cases h
  | ok root =>
    obtain ⟨_, hwalk, _⟩ := (resolve?_path_eq_ok_iff hroot hpath).mp h
    obtain ⟨mid, hmid, _⟩ := Json.walk?_append_eq_ok_iff.mp hwalk
    exact ⟨mid.toValue, (resolve?_path_eq_ok_iff hroot hfront).mpr ⟨mid, hmid, rfl⟩⟩

theorem ofToken?_bodyToken {cs : String} (h : BodyPath.ofText? cs.toList = some path) :
    ofToken? (bodyToken ++ cs).toList = some (body path) := by
  rw [String.toList_append, ofToken?_body, h]
  rfl

/-- The body at a path. In a body that is JSON, two paths one behind the other lead where the second
leads from what the first leads to, and nowhere if either leads nowhere. In any body, if a path
leads somewhere, then so does every path that it begins with, and a rule `has(...)` that holds for
the one holds for the other. A path that leads nowhere in a body that is JSON has a first step that
is refused, and fails for the reason of this refusal; every other path that comes to this step fails
for the same reason. In a body that is not JSON, every path fails for this reason. The operands that
need the path report the reason. -/
theorem resolve?_path_steps (p : Probe) :
    (∀ (root : Json) (front back : BodyPath), Json.ofBytes? p.body = .ok root →
      front ++ back ≠ [] → ∀ v, (body (front ++ back)).resolve? p = .ok v ↔
        ∃ mid j, root.walk? front = .ok mid ∧ mid.walk? back = .ok j ∧ v = j.toValue) ∧
    (∀ (front back : BodyPath) (v : Value), (body (front ++ back)).resolve? p = .ok v →
      ∃ w, (body front).resolve? p = .ok w) ∧
    (∀ cs ds : String, (BodyPath.ofText? cs.toList).isSome = true →
      (BodyPath.ofText? ds.toList).isSome = true → ∀ redact : Bool,
      ((Rule.presence (bodyToken ++ (cs ++ ds)) true).evaluate p redact).outcome.success = true →
      ((Rule.presence (bodyToken ++ cs) true).evaluate p redact).outcome.success = true) ∧
    (∀ (root : Json) (path : BodyPath) (fault : PathFault), Json.ofBytes? p.body = .ok root →
      path ≠ [] → (body path).resolve? p = .error fault →
      ∃ front step back mid, path = front ++ step :: back ∧ root.walk? front = .ok mid ∧
        mid.Refuses step fault) ∧
    (∀ (root mid : Json) (front : BodyPath) (step : Step) (fault : PathFault),
      Json.ofBytes? p.body = .ok root → root.walk? front = .ok mid → mid.Refuses step fault →
      ∀ back, (body (front ++ step :: back)).resolve? p = .error fault) ∧
    (∀ (fault : Json.Located) (path : BodyPath), Json.ofBytes? p.body = .error fault →
      path ≠ [] → (body path).resolve? p = .error (.notJson fault)) ∧
    ∀ (o : Operand) (path : BodyPath) (fault : PathFault), o.meaning.needed? = some (body path) →
      (body path).resolve? p = .error fault →
      o.comparand p = (.value none, [.unresolved o.text fault]) := by
  refine ⟨?_, ?_, ?_, ?_, ?_, ?_, ?_⟩
  · -- two paths, one behind the other
    intro root front back hroot hpath v
    rw [resolve?_path_eq_ok_iff hroot hpath]
    simp only [Json.walk?_append_eq_ok_iff]
    constructor
    · rintro ⟨j, ⟨mid, hfront, hback⟩, hv⟩
      exact ⟨mid, j, hfront, hback, hv⟩
    · rintro ⟨mid, j, hfront, hback, hv⟩
      exact ⟨j, ⟨mid, hfront, hback⟩, hv⟩
  · intro front back v h
    exact exists_resolve?_of_append h
  · -- the grammar reads both texts at once, and `has` answers whether the field resolves
    intro cs ds hcs hds redact
    obtain ⟨front, hfront⟩ := Option.isSome_iff_exists.mp hcs
    obtain ⟨back, hback⟩ := Option.isSome_iff_exists.mp hds
    have hboth : BodyPath.ofText? (cs ++ ds).toList = some (front ++ back) := by
      rw [String.toList_append, BodyPath.ofText?_eq_some_iff]
      exact (BodyPath.ofText?_eq_some_iff.mp hfront).append (BodyPath.ofText?_eq_some_iff.mp hback)
    rw [(Rule.evaluate_presence (ofToken?_bodyToken hboth) true p redact).1,
      (Rule.evaluate_presence (ofToken?_bodyToken hfront) true p redact).1, beq_iff_eq, beq_iff_eq,
      toBool_resolve?_iff, toBool_resolve?_iff]
    rintro ⟨v, h⟩
    exact exists_resolve?_of_append h
  · -- a path that leads nowhere
    intro root path fault hroot hpath h
    exact Json.walk?_eq_error_iff.mp ((resolve?_path_eq_error_iff hroot hpath).mp h)
  · -- a step that is refused, with whatever stands behind it
    intro root mid front step fault hroot hfront hrefuses back
    have hpath : front ++ step :: back ≠ [] :=
      List.append_ne_nil_of_right_ne_nil front (List.cons_ne_nil step back)
    rw [resolve?_path_eq_error_iff hroot hpath]
    exact Json.walk?_of_refuses hfront hrefuses back
  · intro fault path hroot hpath
    exact resolve?_path_of_notJson hpath hroot
  · intro o path fault hneeded h
    exact Operand.comparand_of_unresolved hneeded h

/-- A path of three steps into an array of two items, the same path with an index that is out of
range, and a body of no octets. -/
theorem resolve?_path_steps_nested :
    let p := { Probe.empty with
      body := Text.Utf8.encode "\x7b\"a\": [null, \x7b\"b\": true\x7d]\x7d".toList }
    let root : Json := .object [("a", .array [.null, .object [("b", .bool true)]])]
    let o : Operand := ⟨"len([BODY].a[7].b)", .length (body [.key "a", .index 7, .key "b"])⟩
    (body [.key "a", .index 1, .key "b"]).resolve? p = .ok ⟨"true", .boolean⟩ ∧
      (∃ w, (body [.key "a", .index 1]).resolve? p = .ok w) ∧
      ((Rule.presence (bodyToken ++ ".a") true).evaluate p false).outcome.success = true ∧
      (∃ front step back mid, [.key "a", .index 7, .key "b"] = front ++ step :: back ∧
        root.walk? front = .ok mid ∧ mid.Refuses step (.outOfRange 7 2)) ∧
      o.comparand p = (.value none, [.unresolved o.text (.outOfRange 7 2)]) ∧
      ∃ fault, (body [.key "b"]).resolve? Probe.empty = .error (.notJson fault) := by
  intro p root o
  have hroot : Json.ofBytes? p.body = .ok root := by cbv
  have hfront : root.walk? [.key "a"] = .ok (.array [.null, .object [("b", .bool true)]]) := rfl
  obtain ⟨hwalk, hprefix, hhas, hfirst, hfault, -, hreport⟩ := resolve?_path_steps p
  have hvalue : (body [.key "a", .index 1, .key "b"]).resolve? p = .ok ⟨"true", .boolean⟩ :=
    (hwalk _ [.key "a"] [.index 1, .key "b"] hroot (by decide) _).mpr
      ⟨_, .bool true, hfront, rfl, rfl⟩
  have hresolve := hfault _ _ _ _ _ hroot hfront (.outOfRange (by decide : _ ≤ 7)) [.key "b"]
  have hempty : ∃ fault, Json.ofBytes? Probe.empty.body = .error fault := ⟨_, by cbv⟩
  obtain ⟨fault, hempty⟩ := hempty
  obtain ⟨-, -, -, -, -, hbytes, -⟩ := resolve?_path_steps Probe.empty
  refine ⟨hvalue, hprefix [.key "a", .index 1] [.key "b"] _ hvalue, ?_,
    hfirst _ _ _ hroot (by decide) hresolve, hreport o _ _ rfl hresolve,
    fault, hbytes fault [.key "b"] hempty (by decide)⟩
  refine hhas ".a" "[1].b" (by decide +kernel) (by decide +kernel) false ?_
  have hthere : Field.ofToken? (bodyToken ++ (".a" ++ "[1].b")).toList =
      some (body [.key "a", .index 1, .key "b"]) := by decide +kernel
  rw [(Rule.evaluate_presence hthere true p false).1, hvalue]
  rfl

end Field
end HealthRules
