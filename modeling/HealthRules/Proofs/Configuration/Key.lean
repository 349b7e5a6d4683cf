import Mathlib
import HealthRules.Proofs.Configuration.Check
import HealthRules.Proofs.Text.Occurrence

/-!
# What a key tells of an endpoint

A key is two texts with an underscore between them. Neither text holds an underscore, since it is
among the characters that become dashes, and they do so after the text is in lower case. So the one
underscore of a key shows where to cut it, and a key stands for exactly one pair of texts
(`Endpoint.key_identifies`).

Nothing here depends on which lower-case letter a character has: `Endpoint.keyWith` is the key for
any lower case of whole texts.
-/

namespace HealthRules

namespace Endpoint

/-- A text with a dash for each character that separates words. -/
def dashed (cs : List Char) : List Char :=
  cs.map fun c => if separators.contains c then '-' else c

/-- The key of an endpoint, given the lower case of texts. -/
def keyWith (lower : List Char → List Char) (e : Endpoint) : List Char :=
  dashed (lower e.group.toList) ++ '_' :: dashed (lower e.name.toList)

theorem toList_key (e : Endpoint) : e.key.toList = e.keyWith Text.lowerCase :=
  String.toList_ofList

/-- Underscores are among the characters that are replaced. -/
theorem underscore_not_mem_dashed (cs : List Char) : '_' ∉ dashed cs := by
  intro hmem
  obtain ⟨c, -, hc⟩ := List.mem_map.mp hmem
  split at hc
  · exact absurd hc (by decide)
  · next hseparator =>
    rw [hc] at hseparator
    exact absurd hseparator (by decide)

/-- A cut at the first underscore gives the two texts of a key back. -/
theorem cut?_keyWith (lower : List Char → List Char) (e : Endpoint) :
    Text.cut? ['_'] (e.keyWith lower) =
      some (dashed (lower e.group.toList), dashed (lower e.name.toList)) :=
  Text.cut?_singleton_eq_some_iff.mpr ⟨rfl, underscore_not_mem_dashed _⟩

/-- The only underscore of a key is the one between its parts. -/
theorem count_underscore_keyWith (lower : List Char → List Char) (e : Endpoint) :
    (e.keyWith lower).count '_' = 1 := by
  have hnone : ∀ cs, (dashed cs).count '_' = 0 :=
    fun cs => List.count_eq_zero.mpr (underscore_not_mem_dashed cs)
  rw [keyWith, List.count_append, List.count_cons_self, hnone, hnone]

theorem keyWith_eq_iff {lower : List Char → List Char} {e f : Endpoint} :
    e.keyWith lower = f.keyWith lower ↔
      dashed (lower e.group.toList) = dashed (lower f.group.toList) ∧
        dashed (lower e.name.toList) = dashed (lower f.name.toList) := by
  constructor
  · intro h
    -- the same key is cut in the same place
    have hcut := e.cut?_keyWith lower
    rw [h, cut?_keyWith, Option.some.injEq, Prod.mk.injEq] at hcut
    exact ⟨hcut.1.symm, hcut.2.symm⟩
  · intro h
    rw [keyWith, keyWith, h.1, h.2]

theorem key_eq_iff {e f : Endpoint} :
    e.key = f.key ↔ keyPart e.group = keyPart f.group ∧ keyPart e.name = keyPart f.name := by
  rw [← String.toList_inj, toList_key, toList_key]
  exact keyWith_eq_iff

/-- Two endpoints have the same key exactly if their groups are the same text once they are in lower
case with dashes between words, and so are their names. A key has one underscore, which stands
between these two texts, and a cut there gives them back. All of this would hold for any lower case
of texts. So in a configuration that passes its check no two endpoints agree in both texts. -/
theorem key_identifies :
    (∀ e f : Endpoint, e.key = f.key ↔
      keyPart e.group = keyPart f.group ∧ keyPart e.name = keyPart f.name) ∧
    (∀ e : Endpoint, e.key.toList.count '_' = 1 ∧
      Text.cut? ['_'] e.key.toList = some (keyPart e.group, keyPart e.name)) ∧
    (∀ e : Endpoint, e.key.toList = e.keyWith Text.lowerCase) ∧
    (∀ lower : List Char → List Char,
      (∀ e f : Endpoint, e.keyWith lower = f.keyWith lower ↔
        dashed (lower e.group.toList) = dashed (lower f.group.toList) ∧
          dashed (lower e.name.toList) = dashed (lower f.name.toList)) ∧
      ∀ e : Endpoint, (e.keyWith lower).count '_' = 1 ∧
        Text.cut? ['_'] (e.keyWith lower) =
          some (dashed (lower e.group.toList), dashed (lower e.name.toList))) ∧
    ∀ c : Config, c.check = .ok () → c.endpoints.Pairwise fun e f =>
      ¬ (keyPart e.group = keyPart f.group ∧ keyPart e.name = keyPart f.name) := by
  refine ⟨fun e f => key_eq_iff, ?_, toList_key, ?_, ?_⟩
  · intro e
    rw [toList_key]
    exact ⟨e.count_underscore_keyWith _, e.cut?_keyWith _⟩
  · intro lower
    exact ⟨fun e f => keyWith_eq_iff,
      fun e => ⟨e.count_underscore_keyWith lower, e.cut?_keyWith lower⟩⟩
  · -- the check compares keys, and keys compare the parts
    intro c hcheck
    have hkeys := List.pairwise_map.mp (Config.check_eq_ok_iff.mp hcheck).2
    refine hkeys.imp ?_
    intro e f hne hparts
    exact hne (key_eq_iff.mpr hparts)

/-- Underscores in a group and in a name do not blur where the one ends and the other begins. -/
theorem key_identifies_underscores :
    let first : Endpoint := ⟨"c", "a_b", "", [⟨"[STATUS] == 200"⟩], false⟩
    let second : Endpoint := ⟨"b_c", "A", "", [⟨"[STATUS] == 200"⟩], false⟩
    Config.check ⟨[first, second]⟩ = .ok () ∧
      ¬ (keyPart first.group = keyPart second.group ∧
        keyPart first.name = keyPart second.name) := by
  intro first second
  have hcheck : Config.check ⟨[first, second]⟩ = .ok () := by decide +kernel
  have hapart := key_identifies.2.2.2.2 ⟨[first, second]⟩ hcheck
  exact ⟨hcheck, (List.pairwise_cons.mp hapart).1 second (List.mem_singleton_self second)⟩

end Endpoint
end HealthRules
