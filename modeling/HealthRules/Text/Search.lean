/-!
# Finding a word in a text

`cut? word cs` is the text before and after the first occurrence of `word` in `cs`, and
`contains` says whether there is one. The two parts and the word make up the text
(`cut?_eq_some`).
-/

namespace HealthRules.Text

/-- The text before and after the first occurrence of `word`. -/
def cut? (word cs : List Char) : Option (List Char × List Char) :=
  if word.isPrefixOf cs then some ([], cs.drop word.length)
  else match cs with
    | [] => none
    | c :: rest => (cut? word rest).map fun (before, after) => (c :: before, after)

/-- Whether `word` occurs in the text. -/
def contains (word cs : List Char) : Bool :=
  (cut? word cs).isSome

/-- The two parts and the word between them are the text. -/
theorem cut?_eq_some {word cs before after : List Char} (h : cut? word cs = some (before, after)) :
    cs = before ++ word ++ after := by
  induction cs generalizing before with
  | nil =>
    unfold cut? at h
    split at h
    · rename_i hp
      obtain ⟨t, ht⟩ := List.isPrefixOf_iff_prefix.mp hp
      simp only [Option.some.injEq, Prod.mk.injEq] at h
      obtain ⟨rfl, rfl⟩ := h
      simp [List.append_eq_nil_iff.mp ht]
    · simp at h
  | cons c cs ih =>
    unfold cut? at h
    split at h
    · rename_i hp
      obtain ⟨t, ht⟩ := List.isPrefixOf_iff_prefix.mp hp
      simp only [Option.some.injEq, Prod.mk.injEq] at h
      obtain ⟨rfl, rfl⟩ := h
      simp [← ht]
    · simp only [Option.map_eq_some_iff, Prod.mk.injEq, Prod.exists] at h
      obtain ⟨b, a, hb, rfl, rfl⟩ := h
      rw [ih hb]
      simp

/-- What follows the word, if the text starts with it. -/
def after? (word cs : List Char) : Option (List Char) :=
  if word.isPrefixOf cs then some (cs.drop word.length) else none

theorem after?_eq_some_iff {word cs rest : List Char} :
    after? word cs = some rest ↔ cs = word ++ rest := by
  unfold after?
  constructor
  · intro h
    split at h
    · rename_i hp
      obtain ⟨t, ht⟩ := List.isPrefixOf_iff_prefix.mp hp
      simp only [Option.some.injEq] at h
      subst h
      simp [← ht]
    · simp at h
  · rintro rfl
    have : word.isPrefixOf (word ++ rest) = true :=
      List.isPrefixOf_iff_prefix.mpr ⟨rest, rfl⟩
    simp [this]

/-- What stands before the character, if the text ends with it. -/
def before? (last : Char) (cs : List Char) : Option (List Char) :=
  if cs.getLast? = some last then some cs.dropLast else none

theorem before?_eq_some_iff {last : Char} {cs front : List Char} :
    before? last cs = some front ↔ cs = front ++ [last] := by
  unfold before?
  constructor
  · intro h
    split at h
    · rename_i hl
      simp only [Option.some.injEq] at h
      subst h
      obtain ⟨front, rfl⟩ := List.getLast?_eq_some_iff.mp hl
      simp
    · simp at h
  · rintro rfl
    simp

end HealthRules.Text
