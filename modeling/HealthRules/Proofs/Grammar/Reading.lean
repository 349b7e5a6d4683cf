import Mathlib
import HealthRules.Proofs.Grammar.Condition

/-!
# Readings of a condition

A reading of a text is a way to cut it into two sides with an operator between them
(`Condition.Reading`). A text that is accepted has the reading it was accepted with, and may have
another one: two operators that share a space, as in `a < == b`, leave no operator whole on either
side, whichever of them is taken. `Condition.ofText?_readings` says when this happens, and when
the operator that was found is the leftmost one.

What a shared operator leaves of the other one is a symbol and a space at an end of a side. A side
that gains them has no operator of its own unless it makes one with what is left of them
(`Operator.spaced_infix_symbol_cons`, `Operator.spaced_infix_append_symbol`).
-/

namespace HealthRules

namespace Operator

/-- A text ends in a space and a symbol. -/
def Ends (cs : List Char) : Prop :=
  ∃ op : Operator, ' ' :: op.symbol.toList <:+ cs

/-- A text begins with a symbol and a space. -/
def Begins (cs : List Char) : Prop :=
  ∃ op : Operator, op.symbol.toList ++ [' '] <+: cs

theorem begins_iff {cs : List Char} :
    Begins cs ↔ ∃ (op : Operator) (a : List Char), cs = op.symbol.toList ++ ' ' :: a := by
  constructor
  · rintro ⟨op, a, rfl⟩
    exact ⟨op, a, by rw [List.append_assoc, List.singleton_append]⟩
  · rintro ⟨op, a, rfl⟩
    exact ⟨op, a, by rw [List.append_assoc, List.singleton_append]⟩

theorem ends_iff {cs : List Char} :
    Ends cs ↔ ∃ (op : Operator) (b : List Char), cs = b ++ ' ' :: op.symbol.toList := by
  constructor
  · rintro ⟨op, b, rfl⟩
    exact ⟨op, b, rfl⟩
  · rintro ⟨op, b, rfl⟩
    exact ⟨op, b, rfl⟩

theorem symbol_ne_nil (op : Operator) : op.symbol.toList ≠ [] := by
  cases op <;> decide

theorem isBlank_of_mem_symbol {op : Operator} {c : Char} (h : c ∈ op.symbol.toList) :
    Text.isBlank c = false := by
  have hall : (op.symbol.toList.all fun c => !Text.isBlank c) = true := by
    cases op <;> decide
  have hc := List.all_eq_true.mp hall c h
  rwa [Bool.not_eq_true'] at hc

/-- An operator in a text behind a symbol and a space starts at this space or lies behind it. -/
theorem spaced_infix_symbol_cons {op op' : Operator} {r : List Char}
    (h : op'.spaced <:+: op.symbol.toList ++ ' ' :: r) : Begins r ∨ op'.spaced <:+: r := by
  obtain ⟨front, back, h⟩ := h
  rw [List.append_assoc, spaced_append] at h
  rcases Text.append_cons_eq_append_cons_of_not_mem op.space_not_mem_symbol h.symm with
    ⟨-, hr⟩ | ⟨k, -, hr⟩
  · exact .inl (begins_iff.mpr ⟨op', back, hr.symm⟩)
  · refine .inr ⟨k, back, ?_⟩
    rw [hr, List.append_assoc, spaced_append]

/-- An operator in a text before a space and a symbol ends at this space or lies before it. -/
theorem spaced_infix_append_symbol {op op' : Operator} {l : List Char}
    (h : op'.spaced <:+: l ++ ' ' :: op.symbol.toList) : Ends l ∨ op'.spaced <:+: l := by
  obtain ⟨front, back, h⟩ := h
  rw [List.append_assoc, spaced_append] at h
  have hno := op.space_not_mem_symbol
  rcases Text.append_cons_eq_append_cons h.symm with ⟨-, hmid⟩ | ⟨k, -, hmid⟩ | ⟨k, hk, hmid⟩
  · rw [← hmid] at hno
    exact absurd (List.mem_append_right _ List.mem_cons_self) hno
  · rw [hmid] at hno
    exact absurd (List.mem_append_right _ List.mem_cons_self) hno
  · rcases Text.append_cons_eq_append_cons_of_not_mem op'.space_not_mem_symbol hmid with
      ⟨hk', -⟩ | ⟨k', hk', -⟩
    · exact .inl (ends_iff.mpr ⟨op', front, by rw [hk, hk']⟩)
    · refine .inr ⟨front, k', ?_⟩
      rw [hk, hk', List.append_assoc, spaced_append]

end Operator

namespace Condition

open Operator (Begins Ends begins_iff ends_iff)

/-- A reading of a text: two texts that can stand on a side, and an operator between them. -/
structure Reading (cs l : List Char) (op : Operator) (r : List Char) : Prop where
  text : cs = l ++ (op.spaced ++ r)
  left : Side l
  right : Side r

/-! ## Sides that gain a symbol -/

variable {cs l r a b : List Char} {op op' : Operator}

/-- A side keeps its own last character when a symbol and a space come in front of it. -/
theorem Side.symbol_cons_iff (hr : Side r) :
    Side (op.symbol.toList ++ ' ' :: r) ↔ ¬ Begins r := by
  constructor
  · rintro h hbegins
    obtain ⟨op', a, ha⟩ := begins_iff.mp hbegins
    refine h.noOperator op' ⟨op.symbol.toList, a, ?_⟩
    rw [ha, List.append_assoc, Operator.spaced_append]
  · intro h
    have hend := (Text.trim_eq_self_iff.mp hr.trimmed).2
    constructor
    case ne_nil => exact List.append_ne_nil_of_right_ne_nil _ (List.cons_ne_nil _ _)
    case trimmed =>
      rw [Text.trim_eq_self_iff]
      constructor
      · intro d hd
        rw [List.head?_append_of_ne_nil _ op.symbol_ne_nil] at hd
        exact Operator.isBlank_of_mem_symbol (List.mem_of_mem_head? hd)
      · intro d hd
        rw [List.getLast?_append_of_ne_nil _ (List.cons_ne_nil _ _),
          List.getLast?_cons_of_ne_nil hr.ne_nil] at hd
        exact hend d hd
    -- an operator in the longer side uses the symbol in front, or lies in the old side
    case noOperator =>
      intro op' hin
      rcases Operator.spaced_infix_symbol_cons hin with hbegins | hin
      · exact h hbegins
      · exact hr.noOperator op' hin

theorem Side.append_symbol_iff (hl : Side l) :
    Side (l ++ ' ' :: op.symbol.toList) ↔ ¬ Ends l := by
  constructor
  · rintro h hends
    obtain ⟨op', b, hb⟩ := ends_iff.mp hends
    refine h.noOperator op' ⟨b, op.symbol.toList, ?_⟩
    simp only [hb, Operator.spaced, List.append_assoc, List.cons_append, List.nil_append]
  · intro h
    have hstart := (Text.trim_eq_self_iff.mp hl.trimmed).1
    constructor
    case ne_nil => exact List.append_ne_nil_of_left_ne_nil hl.ne_nil _
    case trimmed =>
      rw [Text.trim_eq_self_iff]
      constructor
      · intro d hd
        rw [List.head?_append_of_ne_nil _ hl.ne_nil] at hd
        exact hstart d hd
      · intro d hd
        rw [List.getLast?_append_of_ne_nil _ (List.cons_ne_nil _ _),
          List.getLast?_cons_of_ne_nil op.symbol_ne_nil] at hd
        exact Operator.isBlank_of_mem_symbol (List.mem_of_mem_getLast? hd)
    case noOperator =>
      intro op' hin
      rcases Operator.spaced_infix_append_symbol hin with hends | hin
      · exact h hends
      · exact hl.noOperator op' hin

/-! ## Other readings -/

namespace Reading

/-- The operator before the one of a reading, if they share a space, gives a reading of its own
unless the text in front is left with white space or the right side makes a third operator. -/
theorem iff_of_ends (h : Reading cs l op r) (hl : l = b ++ ' ' :: op'.symbol.toList) :
    Reading cs b op' (op.symbol.toList ++ ' ' :: r) ↔ Text.trim b = b ∧ ¬ Begins r := by
  constructor
  · intro hother
    exact ⟨hother.left.trimmed, h.right.symbol_cons_iff.mp hother.right⟩
  · rintro ⟨htrim, hbegins⟩
    constructor
    case text =>
      rw [h.text, hl]
      simp only [Operator.spaced, List.append_assoc, List.cons_append, List.nil_append]
    case left =>
      constructor
      case ne_nil =>
        -- the side would begin with a space
        rintro rfl
        have hfirst := (Text.trim_eq_self_iff.mp h.left.trimmed).1 ' ' (by rw [hl]; rfl)
        exact absurd hfirst (by decide)
      case trimmed => exact htrim
      case noOperator =>
        intro o hin
        apply h.left.noOperator o
        rw [hl]
        exact hin.trans (List.prefix_append b _).isInfix
    case right => exact h.right.symbol_cons_iff.mpr hbegins

theorem iff_of_begins (h : Reading cs l op r) (hr : r = op'.symbol.toList ++ ' ' :: a) :
    Reading cs (l ++ ' ' :: op.symbol.toList) op' a ↔ Text.trim a = a ∧ ¬ Ends l := by
  constructor
  · intro hother
    exact ⟨hother.right.trimmed, h.left.append_symbol_iff.mp hother.left⟩
  · rintro ⟨htrim, hends⟩
    constructor
    case text =>
      rw [h.text, hr]
      simp only [Operator.spaced, List.append_assoc, List.cons_append, List.nil_append]
    case left => exact h.left.append_symbol_iff.mpr hends
    case right =>
      constructor
      case ne_nil =>
        -- the side would end in a space
        rintro rfl
        have hlast := (Text.trim_eq_self_iff.mp h.right.trimmed).2 ' '
          (by rw [hr]; exact List.getLast?_concat)
        exact absurd hlast (by decide)
      case trimmed => exact htrim
      case noOperator =>
        intro o hin
        apply h.right.noOperator o
        rw [hr]
        exact hin.trans (List.suffix_append_of_suffix (List.suffix_cons ' ' a)).isInfix

/-- There is no other reading exactly if no shared operator gives one. -/
theorem unique_iff (h : Reading cs l op r) :
    (∀ b op' a, Reading cs b op' a → b = l ∧ op' = op ∧ a = r) ↔
      (∀ (b : List Char) (op' : Operator), l = b ++ ' ' :: op'.symbol.toList →
        Text.trim b = b → Begins r) ∧
      ∀ (op' : Operator) (a : List Char), r = op'.symbol.toList ++ ' ' :: a →
        Text.trim a = a → Ends l := by
  constructor
  · intro hunique
    constructor
    · intro b op' hl htrim
      by_contra hbegins
      obtain ⟨hb, -⟩ := hunique b op' _ ((h.iff_of_ends hl).mpr ⟨htrim, hbegins⟩)
      have hlength := congrArg List.length hl
      rw [hb, List.length_append, List.length_cons] at hlength
      omega
    · intro op' a hr htrim
      by_contra hends
      obtain ⟨-, -, ha⟩ := hunique _ op' a ((h.iff_of_begins hr).mpr ⟨htrim, hends⟩)
      have hlength := congrArg List.length hr
      rw [ha, List.length_append, List.length_cons] at hlength
      omega
  · -- another reading takes the same operator, or one that shares a space with it
    rintro ⟨hleft, hright⟩ b op' a hother
    rcases Operator.eq_or_shared_of_append_spaced_eq h.left.noOperator h.right.noOperator
      (h.text.symm.trans hother.text) with ⟨hop, hb, ha⟩ | ⟨rfl, hr⟩ | ⟨hl, rfl⟩
    · exact ⟨hb, hop, ha⟩
    · obtain ⟨htrim, hends⟩ := (h.iff_of_begins hr).mp hother
      exact absurd (hright op' a hr htrim) hends
    · obtain ⟨htrim, hbegins⟩ := (h.iff_of_ends hl).mp hother
      exact absurd (hleft b op' hl htrim) hbegins

/-- No operator starts before the one of a reading exactly if none shares its left space. -/
theorem leftmost_iff (h : Reading cs l op r) :
    (∀ (b : List Char) (op' : Operator) (a : List Char), cs = b ++ (op'.spaced ++ a) →
      l.length ≤ b.length) ↔ ¬ Ends l := by
  constructor
  · intro hleftmost hends
    obtain ⟨op', b, hl⟩ := ends_iff.mp hends
    have htext : cs = b ++ (op'.spaced ++ (op.symbol.toList ++ ' ' :: r)) := by
      rw [h.text, hl]
      simp only [Operator.spaced, List.append_assoc, List.cons_append, List.nil_append]
    have hle := hleftmost b op' _ htext
    rw [hl, List.length_append, List.length_cons] at hle
    omega
  · intro hends b op' a htext
    rcases Operator.eq_or_shared_of_append_spaced_eq h.left.noOperator h.right.noOperator
      (h.text.symm.trans htext) with ⟨-, hb, -⟩ | ⟨hb, -⟩ | ⟨hl, -⟩
    · rw [hb]
    · rw [hb, List.length_append]
      omega
    · exact absurd (ends_iff.mpr ⟨op', b, hl⟩) hends

end Reading

/-! ## The reading of an accepted text -/

theorem reading_of_ofText? {text : String} {c : Condition} (h : ofText? text = some c) :
    Reading text.toList c.left.text.toList c.operator c.right.text.toList := by
  obtain ⟨htext, hwell⟩ := wellFormed_of_ofText? h
  exact ⟨by rw [htext, toList_text], hwell.left, hwell.right⟩

/-- A text that is accepted has the reading it is accepted with. This is the only one unless the
left side ends in an operator that shares the space, with a trimmed text in front of it, and the
right side begins with none, or the other way round. The operator is the leftmost one of the text
unless the left side ends in one. -/
theorem ofText?_readings {text : String} {c : Condition} (h : ofText? text = some c) :
    let l := c.left.text.toList
    let r := c.right.text.toList
    Reading text.toList l c.operator r ∧
    ((∀ b op a, Reading text.toList b op a → b = l ∧ op = c.operator ∧ a = r) ↔
      (∀ (b : List Char) (op : Operator), l = b ++ ' ' :: op.symbol.toList → Text.trim b = b →
        Begins r) ∧
      ∀ (op : Operator) (a : List Char), r = op.symbol.toList ++ ' ' :: a → Text.trim a = a →
        Ends l) ∧
    ((∀ (b : List Char) (op : Operator) (a : List Char), text.toList = b ++ (op.spaced ++ a) →
      l.length ≤ b.length) ↔ ¬ Ends l) := by
  intro l r
  have hreading : Reading text.toList l c.operator r := reading_of_ofText? h
  exact ⟨hreading, hreading.unique_iff, hreading.leftmost_iff⟩

/-- Three operators that share spaces: only the middle one gives a reading, and it is not the
leftmost. -/
theorem ofText?_readings_three :
    ofText? "a < == > b" = some ⟨⟨"a <", .literal "a <"⟩, .eq, ⟨"> b", .literal "> b"⟩⟩ ∧
    (∀ b op a, Reading "a < == > b".toList b op a → b = "a <".toList ∧ op = .eq ∧
      a = "> b".toList) ∧
    ¬ ∀ (b : List Char) (op : Operator) (a : List Char),
      "a < == > b".toList = b ++ (op.spaced ++ a) → "a <".toList.length ≤ b.length := by
  have hread : ofText? "a < == > b" =
      some ⟨⟨"a <", .literal "a <"⟩, .eq, ⟨"> b", .literal "> b"⟩⟩ := by
    decide +kernel
  have hends : Ends "a <".toList := ends_iff.mpr ⟨.lt, ['a'], by decide⟩
  have hbegins : Begins "> b".toList := begins_iff.mpr ⟨.gt, ['b'], by decide⟩
  obtain ⟨-, hunique, hleftmost⟩ := ofText?_readings hread
  exact ⟨hread, hunique.mpr ⟨fun _ _ _ _ => hbegins, fun _ _ _ _ => hends⟩,
    fun h => hleftmost.mp h hends⟩

/-- Two operators that share a space: the text is accepted with the second of them, and the first
gives another reading. -/
theorem ofText?_two_readings :
    ofText? "a < == b" = some ⟨⟨"a <", .literal "a <"⟩, .eq, ⟨"b", .literal "b"⟩⟩ ∧
    Reading "a < == b".toList "a".toList .lt "== b".toList ∧
    "a".toList.length < "a <".toList.length := by
  have hread : ofText? "a < == b" = some ⟨⟨"a <", .literal "a <"⟩, .eq, ⟨"b", .literal "b"⟩⟩ := by
    decide +kernel
  have hsides : isSide "a".toList = true ∧ isSide "== b".toList = true := by
    decide +kernel
  exact ⟨hread, ⟨by decide, isSide_iff.mp hsides.1, isSide_iff.mp hsides.2⟩, by decide⟩

end Condition
end HealthRules
