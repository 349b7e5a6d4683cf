import HealthRules.Text.Search

/-!
# Occurrences of a word

What the search for a word says about the text.

* `cut?_isSome_iff` and `contains_iff`: a word is found exactly when it is an infix of the text;
* `cut?_eq_some_iff`: it is cut out at the first place where it starts;
* `cut?_append`: the first occurrence behind a text without the first character of the word;
* `cut?_singleton_eq_some_iff`: a cut at one character is the cut at the first of them;
* `append_cons_eq_append_cons`: where a second cut at the same character can lie.
-/

namespace HealthRules.Text

/-! ## The word is found where it occurs -/

/-- A cut at the start, if the text starts with the word. -/
theorem cut?_append_self (word rest : List Char) : cut? word (word ++ rest) = some ([], rest) := by
  have hp : word.isPrefixOf (word ++ rest) = true :=
    List.isPrefixOf_iff_prefix.mpr (List.prefix_append word rest)
  rw [cut?.eq_def, if_pos hp, List.drop_left]

/-- A cut behind one character more, if the text does not start with the word. -/
theorem cut?_cons {word : List Char} {c : Char} {cs : List Char} (h : ¬ word <+: c :: cs) :
    cut? word (c :: cs) = (cut? word cs).map fun sides => (c :: sides.1, sides.2) := by
  have hp : ¬ word.isPrefixOf (c :: cs) = true := by
    rw [List.isPrefixOf_iff_prefix]
    exact h
  rw [cut?, if_neg hp]

theorem cut?_isSome_iff {word cs : List Char} : (cut? word cs).isSome = true ↔ word <:+: cs := by
  constructor
  · intro h
    obtain ⟨⟨before, after⟩, hcut⟩ := Option.isSome_iff_exists.mp h
    exact ⟨before, after, (cut?_eq_some hcut).symm⟩
  · intro h
    induction cs with
    | nil =>
      rw [List.eq_nil_of_infix_nil h]
      rfl
    | cons c cs ih =>
      by_cases hp : word <+: c :: cs
      · obtain ⟨rest, hrest⟩ := hp
        rw [← hrest, cut?_append_self]
        rfl
      · rw [cut?_cons hp, Option.isSome_map]
        rcases List.infix_cons_iff.mp h with hpre | hin
        · exact absurd hpre hp
        · exact ih hin

theorem contains_iff {word cs : List Char} : contains word cs = true ↔ word <:+: cs :=
  cut?_isSome_iff

theorem cut?_eq_none_iff {word cs : List Char} : cut? word cs = none ↔ ¬ word <:+: cs := by
  rw [← cut?_isSome_iff, Option.not_isSome_iff_eq_none]

/-! ## The first occurrence -/

/-- In front of a cut the word does not start. -/
theorem not_prefix_drop_of_cut? {word cs before after : List Char}
    (h : cut? word cs = some (before, after)) : ∀ i < before.length, ¬ word <+: cs.drop i := by
  induction cs generalizing before with
  | nil =>
    have hnil : before ++ word ++ after = [] := (cut?_eq_some h).symm
    rw [(List.append_eq_nil_iff.mp (List.append_eq_nil_iff.mp hnil).1).1]
    exact fun i hi => absurd hi (Nat.not_lt_zero i)
  | cons c cs ih =>
    by_cases hp : word <+: c :: cs
    · obtain ⟨rest, hrest⟩ := hp
      rw [← hrest, cut?_append_self, Option.some.injEq, Prod.mk.injEq] at h
      rw [← h.1]
      exact fun i hi => absurd hi (Nat.not_lt_zero i)
    · rw [cut?_cons hp, Option.map_eq_some_iff] at h
      obtain ⟨⟨b, a⟩, hcut, hsides⟩ := h
      simp only [Prod.mk.injEq] at hsides
      obtain ⟨rfl, rfl⟩ := hsides
      intro i hi
      cases i with
      | zero => exact hp
      | succ i => exact ih hcut i (Nat.lt_of_succ_lt_succ hi)

theorem cut?_of_not_prefix_drop {word before after : List Char}
    (h : ∀ i < before.length, ¬ word <+: (before ++ word ++ after).drop i) :
    cut? word (before ++ word ++ after) = some (before, after) := by
  induction before with
  | nil => exact cut?_append_self word after
  | cons c before ih =>
    have hcut := ih fun i hi => h (i + 1) (Nat.succ_lt_succ hi)
    rw [List.cons_append, List.cons_append] at h ⊢
    rw [cut?_cons (h 0 (Nat.zero_lt_succ _)), hcut]
    rfl

/-- A cut is at the first place where the word starts. -/
theorem cut?_eq_some_iff {word cs before after : List Char} :
    cut? word cs = some (before, after) ↔
      cs = before ++ word ++ after ∧ ∀ i < before.length, ¬ word <+: cs.drop i := by
  constructor
  · exact fun h => ⟨cut?_eq_some h, not_prefix_drop_of_cut? h⟩
  · rintro ⟨rfl, h⟩
    exact cut?_of_not_prefix_drop h

/-- A word cannot start inside a text without its first character, so behind such a text its
first occurrence is the one that stands there. -/
theorem cut?_append {c : Char} {word front : List Char} (h : c ∉ front) (rest : List Char) :
    cut? (c :: word) (front ++ (c :: word ++ rest)) = some (front, rest) := by
  rw [cut?_eq_some_iff, List.append_assoc]
  refine ⟨rfl, fun i hi hp => ?_⟩
  rw [List.drop_append_of_le_length (Nat.le_of_lt hi), List.drop_eq_getElem_cons hi,
    List.cons_append, List.cons_prefix_cons] at hp
  exact h (hp.1 ▸ List.getElem_mem hi)

/-- What stands before the first occurrence of a character does not hold it. -/
theorem not_mem_of_cut?_singleton {c : Char} {cs before after : List Char}
    (h : cut? [c] cs = some (before, after)) : c ∉ before := by
  obtain ⟨hcs, hfirst⟩ := cut?_eq_some_iff.mp h
  intro hc
  obtain ⟨i, hi, rfl⟩ := List.mem_iff_getElem.mp hc
  refine hfirst i hi ?_
  rw [hcs, List.append_assoc, List.drop_append_of_le_length (Nat.le_of_lt hi),
    List.drop_eq_getElem_cons hi, List.cons_append, List.cons_prefix_cons]
  exact ⟨rfl, List.nil_prefix⟩

theorem cut?_singleton_eq_some_iff {c : Char} {cs before after : List Char} :
    cut? [c] cs = some (before, after) ↔ cs = before ++ c :: after ∧ c ∉ before := by
  constructor
  · intro h
    refine ⟨?_, not_mem_of_cut?_singleton h⟩
    rw [cut?_eq_some h, List.append_assoc, List.singleton_append]
  · intro h
    rw [h.1]
    exact cut?_append h.2 after

/-! ## Two cuts of one text -/

/-- Of two cuts of a text at the same character, either they are the same cut, or the second lies
behind the first, or before it. -/
theorem append_cons_eq_append_cons {c : Char} {s x t y : List Char}
    (h : s ++ c :: x = t ++ c :: y) :
    (t = s ∧ y = x) ∨ (∃ k, t = s ++ c :: k ∧ x = k ++ c :: y) ∨
      ∃ k, s = t ++ c :: k ∧ y = k ++ c :: x := by
  -- one front goes on where the other ends; if it goes on with nothing, the cuts are the same
  rcases List.append_eq_append_iff.mp h with ⟨k, hk, hx⟩ | ⟨k, hk, hy⟩
  · cases k with
    | nil =>
      rw [List.nil_append, List.cons.injEq] at hx
      rw [List.append_nil] at hk
      exact .inl ⟨hk, hx.2.symm⟩
    | cons d k =>
      rw [List.cons_append, List.cons.injEq] at hx
      rw [← hx.1] at hk
      exact .inr (.inl ⟨k, hk, hx.2⟩)
  · cases k with
    | nil =>
      rw [List.nil_append, List.cons.injEq] at hy
      rw [List.append_nil] at hk
      exact .inl ⟨hk.symm, hy.2⟩
    | cons d k =>
      rw [List.cons_append, List.cons.injEq] at hy
      rw [← hy.1] at hk
      exact .inr (.inr ⟨k, hk, hy.2⟩)

/-- If the front of the first cut does not hold the character, no cut lies before it. -/
theorem append_cons_eq_append_cons_of_not_mem {c : Char} {s x t y : List Char} (hs : c ∉ s)
    (h : s ++ c :: x = t ++ c :: y) :
    (t = s ∧ y = x) ∨ ∃ k, t = s ++ c :: k ∧ x = k ++ c :: y := by
  rcases append_cons_eq_append_cons h with heq | hbehind | ⟨k, rfl, -⟩
  · exact .inl heq
  · exact .inr hbehind
  · exact absurd (List.mem_append_right t List.mem_cons_self) hs

end HealthRules.Text
