import Mathlib
import HealthRules.Proofs.Configuration.Check
import HealthRules.Proofs.Evaluation.Validity
import HealthRules.Proofs.Text.Blank

/-!
# The first fault of a configuration

A check looks at the endpoints one after the other, and at each of them first for a fault of its
own, then for a key that an endpoint before it has. `Endpoint.Sound` and `Config.Sound` say what
it accepts, and the latter does not depend on the order of the endpoints; `Endpoint.Fault` and
`Config.FirstFault` say which error it gives. Both are exact (`Config.check_first_fault`).

Faults of endpoints and repeated keys are found in one pass. What carries the proof is that the
endpoints before the one that is looked at pass on their own, given the keys seen before them
(`Config.checkFrom_eq_error_iff`).
-/

namespace HealthRules

/-! ## Endpoints -/

namespace Endpoint

/-- Whether an endpoint has a name that is more than white space. -/
def Named (e : Endpoint) : Prop :=
  ∃ c ∈ e.name.toList, Text.isBlank c = false

theorem named_iff {e : Endpoint} : e.Named ↔ Text.trim e.name.toList ≠ [] := by
  rw [ne_eq, Text.trim_eq_nil_iff]
  simp only [Named, not_forall, Bool.not_eq_true, exists_prop]

/-- An endpoint has a name, rules, and a condition in each of them. -/
structure Sound (e : Endpoint) : Prop where
  named : e.Named
  rules_ne_nil : e.rules ≠ []
  wellFormed : ∀ rule ∈ e.rules, ∃ c, Condition.ofText? rule.body = some c

/-- What is wrong with an endpoint on its own: it has no name, or else no rules, or else a rule
without a condition, the first of which is named. -/
inductive Fault (e : Endpoint) : ConfigError → Prop where
  | noName (blank : ¬ e.Named) : Fault e .noName
  | noRules (named : e.Named) (empty : e.rules = []) : Fault e (.noRules e.displayName)
  | badRule (named : e.Named) {front back : List Rule} {rule : Rule}
      (rules : e.rules = front ++ rule :: back)
      (before : ∀ r ∈ front, ∃ c, Condition.ofText? r.body = some c)
      (malformed : Condition.ofText? rule.body = none) :
      Fault e (.badRule e.displayName (.invalidCondition rule.text))

/-- An endpoint is sound exactly if its check finds nothing. -/
theorem sound_iff {e : Endpoint} : e.Sound ↔ e.check = .ok () := by
  rw [check_eq_ok_iff, ← named_iff]
  simp only [Rule.check_eq_ok_iff]
  constructor
  · intro h
    exact ⟨h.named, h.rules_ne_nil, h.wellFormed⟩
  · intro h
    exact ⟨h.1, h.2.1, h.2.2⟩

/-- The check of an endpoint reports the fault that comes first in it. -/
theorem check_eq_error_iff {e : Endpoint} {error : ConfigError} :
    e.check = .error error ↔ e.Fault error := by
  -- the check stops at the first of the three, and each fault excludes those before it
  unfold check
  split
  · next hname =>
    have hblank : ¬ e.Named := fun h => named_iff.mp h hname
    constructor
    · intro h
      rw [← Except.error.inj h]
      exact .noName hblank
    · intro h
      cases h with
      | noName _ => rfl
      | noRules named _ | badRule named _ _ _ => exact absurd named hblank
  · next hname =>
    have hnamed : e.Named := named_iff.mpr hname
    split
    · next hrules =>
      constructor
      · intro h
        rw [← Except.error.inj h]
        exact .noRules hnamed hrules
      · intro h
        cases h with
        | noName blank => exact absurd hnamed blank
        | noRules _ _ => rfl
        | badRule _ rules _ _ => exact absurd (hrules.symm.trans rules) (by simp)
    · next hrules =>
      simp only [forM_eq_error_iff, mapError_eq_ok_iff, mapError_eq_error_iff,
        Rule.check_eq_ok_iff, Rule.check_eq_error_iff]
      constructor
      · rintro ⟨front, rule, back, hsplit, hfront, cause, ⟨hnone, rfl⟩, rfl⟩
        exact .badRule hnamed hsplit hfront hnone
      · intro h
        cases h with
        | noName blank => exact absurd hnamed blank
        | noRules _ empty => exact absurd empty hrules
        | badRule _ rules before malformed =>
          exact ⟨_, _, _, rules, before, _, ⟨malformed, rfl⟩, rfl⟩

end Endpoint

/-! ## Configurations -/

namespace Config

/-- All endpoints of a configuration are sound, and no two have the same key. -/
structure Sound (c : Config) : Prop where
  endpoints : ∀ e ∈ c.endpoints, e.Sound
  keys : (c.endpoints.map Endpoint.key).Nodup

/-- The error of a configuration: all endpoints before some endpoint are sound, and that one has a
fault of its own, or it has none but repeats the key of an endpoint before it. -/
inductive FirstFault (c : Config) : ConfigError → Prop where
  | own {front back : List Endpoint} {e : Endpoint} {error : ConfigError}
      (endpoints : c.endpoints = front ++ e :: back) (before : Sound ⟨front⟩)
      (fault : e.Fault error) : FirstFault c error
  | duplicate {front back : List Endpoint} {e : Endpoint}
      (endpoints : c.endpoints = front ++ e :: back) (before : Sound ⟨front⟩) (sound : e.Sound)
      (repeated : e.key ∈ front.map Endpoint.key) : FirstFault c (.duplicate e.displayName)

/-- A configuration is sound exactly if its check finds nothing. -/
theorem sound_iff {c : Config} : c.Sound ↔ c.check = .ok () := by
  rw [check_eq_ok_iff]
  simp only [← Endpoint.sound_iff]
  constructor
  · intro h
    exact ⟨h.endpoints, h.keys⟩
  · intro h
    exact ⟨h.1, h.2⟩

/-- Sound configurations stay sound in any order. -/
theorem Sound.of_perm {c d : Config} (h : c.Sound) (hperm : d.endpoints.Perm c.endpoints) :
    d.Sound where
  endpoints := fun e he => h.endpoints e (hperm.mem_iff.mp he)
  keys := (hperm.map Endpoint.key).nodup_iff.mpr h.keys

/-- The error of endpoints, given the keys of those before: some endpoint is the first that does not
pass, on its own or for its key. -/
theorem checkFrom_eq_error_iff {keys : List String} {es : List Endpoint} {error : ConfigError} :
    checkFrom keys es = .error error ↔ ∃ front e back, es = front ++ e :: back ∧
      checkFrom keys front = .ok () ∧
      (e.check = .error error ∨ e.check = .ok () ∧ (e.key ∈ keys ∨ e.key ∈ front.map Endpoint.key) ∧
        error = .duplicate e.displayName) := by
  induction es generalizing keys with
  | nil => simp [checkFrom]
  | cons e es ih =>
    rw [exists_split_cons]
    simp only [checkFrom]
    cases hcheck : e.check with
    | error first => simp
    | ok u =>
      by_cases hkey : e.key ∈ keys
      · simp [hkey, eq_comm]
      · -- the key joins those seen before, or the list of those in front
        simp [hkey, ih, or_assoc, or_left_comm]

/-- The check of a configuration reports its first fault. -/
theorem check_eq_error_iff {c : Config} {error : ConfigError} :
    c.check = .error error ↔ c.FirstFault error := by
  have hsound : ∀ front : List Endpoint, checkFrom [] front = .ok () ↔ Sound ⟨front⟩ :=
    fun front => sound_iff.symm
  rw [check, checkFrom_eq_error_iff]
  simp only [hsound, List.not_mem_nil, false_or]
  constructor
  · rintro ⟨front, e, back, hsplit, hbefore, hown | ⟨hok, hkey, rfl⟩⟩
    · exact .own hsplit hbefore (Endpoint.check_eq_error_iff.mp hown)
    · exact .duplicate hsplit hbefore (Endpoint.sound_iff.mpr hok) hkey
  · intro h
    cases h with
    | own endpoints before fault =>
      exact ⟨_, _, _, endpoints, before, .inl (Endpoint.check_eq_error_iff.mpr fault)⟩
    | duplicate endpoints before sound repeated =>
      exact ⟨_, _, _, endpoints, before, .inr ⟨Endpoint.sound_iff.mp sound, repeated, rfl⟩⟩

/-- A configuration passes its check exactly if all of its endpoints have a name, rules, and a
condition in every rule, and no two of them have the same key, in whatever order they stand. Any
other configuration is refused for the first endpoint that has a fault of its own or repeats a key:
with its own fault, if it has one, and as a duplicate otherwise. -/
theorem check_first_fault (c : Config) :
    (c.check = .ok () ↔ c.Sound) ∧
    (∀ d : Config, d.endpoints.Perm c.endpoints → (d.check = .ok () ↔ c.check = .ok ())) ∧
    ∀ error, c.check = .error error ↔ c.FirstFault error := by
  refine ⟨sound_iff.symm, ?_, fun error => check_eq_error_iff⟩
  intro d hperm
  rw [← sound_iff, ← sound_iff]
  constructor
  · exact fun h => h.of_perm hperm.symm
  · exact fun h => h.of_perm hperm

/-- A name spelt in another way repeats a key; it is reported before the malformed rule of the last
endpoint, and in another order of the endpoints the configuration is refused as well. -/
theorem check_first_fault_spelling :
    let first : Endpoint := ⟨"API v1", "core", "", [⟨"[STATUS] == 200"⟩], false⟩
    let second : Endpoint := ⟨"api.v1", "core", "", [⟨"[STATUS] != 0"⟩], false⟩
    let third : Endpoint := ⟨"dns", "", "", [⟨"[STATUS]"⟩], false⟩
    FirstFault ⟨[first, second, third]⟩ (.duplicate "core/api.v1") ∧
    [third, first, second].Perm [first, second, third] ∧
    check ⟨[third, first, second]⟩ ≠ .ok () := by
  intro first second third
  obtain ⟨-, horder, hfault⟩ := check_first_fault ⟨[first, second, third]⟩
  have hcheck : check ⟨[first, second, third]⟩ = .error (.duplicate "core/api.v1") := by
    decide +kernel
  have hperm : [third, first, second].Perm [first, second, third] :=
    (List.perm_append_comm : ([third] ++ [first, second]).Perm ([first, second] ++ [third]))
  refine ⟨(hfault _).mp hcheck, hperm, ?_⟩
  rw [ne_eq, horder ⟨[third, first, second]⟩ hperm, hcheck]
  simp

end Config
end HealthRules
