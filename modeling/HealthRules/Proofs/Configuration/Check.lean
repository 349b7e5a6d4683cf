import Mathlib
import HealthRules.Endpoint
import HealthRules.Proofs.Result

/-!
# What a check that passes says

An endpoint passes its check exactly if it has a name that is not blank, rules, and only rules that
pass theirs (`Endpoint.check_eq_ok_iff`); a configuration passes exactly if all of its endpoints do
and no two of them have the same key (`Config.check_eq_ok_iff`).
-/

namespace HealthRules

/-! ## Endpoints and configurations that pass -/

theorem Endpoint.check_eq_ok_iff {e : Endpoint} :
    e.check = .ok () ↔ Text.trim e.name.toList ≠ [] ∧ e.rules ≠ [] ∧
      ∀ rule ∈ e.rules, rule.check = .ok () := by
  unfold check
  split
  · next hname => simp [hname]
  · next hname =>
    split
    · next hrules => simp [hrules]
    · next hrules =>
      simp only [forM_eq_ok_iff, mapError_eq_ok_iff]
      exact ⟨fun h => ⟨hname, hrules, h⟩, fun h => h.2.2⟩

namespace Config

theorem checkFrom_eq_ok_iff {keys : List String} {es : List Endpoint} :
    checkFrom keys es = .ok () ↔
      (∀ e ∈ es, e.check = .ok () ∧ e.key ∉ keys) ∧ (es.map Endpoint.key).Nodup := by
  induction es generalizing keys with
  | nil => simp [checkFrom]
  | cons e es ih =>
    rw [checkFrom, List.forall_mem_cons, List.map_cons, List.nodup_cons]
    cases hcheck : e.check with
    | error error => simp
    | ok u =>
      by_cases hkey : e.key ∈ keys
      · simp [hkey]
      · -- that no later endpoint has this key is said by the keys seen so far, then by their list
        simp only [List.contains_iff_mem, hkey, if_false, ih, List.mem_cons, not_or,
          List.mem_map, not_exists, not_and]
        grind

theorem check_eq_ok_iff {c : Config} :
    c.check = .ok () ↔ (∀ e ∈ c.endpoints, e.check = .ok ()) ∧
      (c.endpoints.map Endpoint.key).Nodup := by
  rw [check, checkFrom_eq_ok_iff]
  simp only [List.not_mem_nil, not_false_eq_true, and_true]

end Config
end HealthRules
