import Mathlib
import HealthRules.Condition
import HealthRules.Proofs.Grammar.Operand

/-!
# The grammar of conditions

A condition is written as its left text, one space, the symbol of its operator, one space and its
right text. `Condition.WellFormed` says which conditions can be written. Every text that is read
is the text of the condition read from it, and that condition is well formed; a well-formed
condition is read back from its text unless one of its sides makes an operator with the spaces in
the middle (`ofText?_lossless_complete`).

The operator is not looked for from left to right. What makes the reader find it all the same is
that an operator stands between two spaces with none between them, so a second occurrence that
touches the middle has to end or begin at one of its two spaces (`eq_of_append_spaced_eq`).
-/

namespace HealthRules

namespace Operator

theorem space_not_mem_symbol (op : Operator) : ' ' ∉ op.symbol.toList := by
  cases op <;> decide

theorem symbol_injective {op op' : Operator} (h : op.symbol = op'.symbol) : op = op' := by
  rw [← Option.some.injEq, ← ofSymbol?_symbol op, ← ofSymbol?_symbol op', h]

/-- What an operator begins with is a space, which no unspaced operand has. -/
theorem spaced_append (op : Operator) (rest : List Char) :
    op.spaced ++ rest = ' ' :: (op.symbol.toList ++ ' ' :: rest) := by
  rw [spaced, List.cons_append, List.cons_append, List.append_assoc, List.singleton_append]

theorem ofList_spaced (op : Operator) : String.ofList op.spaced = " " ++ op.symbol ++ " " := by
  cases op <;> rfl

/-- Two operators that start at the same place are the same. -/
theorem eq_of_symbol_append_eq {op op' : Operator} {r a : List Char}
    (h : op.symbol.toList ++ ' ' :: r = op'.symbol.toList ++ ' ' :: a) : op' = op ∧ a = r := by
  rcases Text.append_cons_eq_append_cons_of_not_mem op.space_not_mem_symbol h with
    ⟨hs, ha⟩ | ⟨k, hk, -⟩
  · exact ⟨symbol_injective (String.toList_inj.mp hs), ha⟩
  · have hmem : ' ' ∈ op'.symbol.toList := by
      rw [hk]
      exact List.mem_append_right _ List.mem_cons_self
    exact absurd hmem op'.space_not_mem_symbol

/-- Of two cuts of a text at an operator, the first between sides that hold none: either they are
the same cut, or the two operators share a space, the second behind the first or before it. -/
theorem eq_or_shared_of_append_spaced_eq {op op' : Operator} {l r b a : List Char}
    (hl : ∀ o : Operator, ¬ o.spaced <:+: l) (hr : ∀ o : Operator, ¬ o.spaced <:+: r)
    (h : l ++ (op.spaced ++ r) = b ++ (op'.spaced ++ a)) :
    (op' = op ∧ b = l ∧ a = r) ∨
      (b = l ++ ' ' :: op.symbol.toList ∧ r = op'.symbol.toList ++ ' ' :: a) ∨
      (l = b ++ ' ' :: op'.symbol.toList ∧ a = op.symbol.toList ++ ' ' :: r) := by
  rw [spaced_append, spaced_append] at h
  rcases Text.append_cons_eq_append_cons h with ⟨hb, hmid⟩ | ⟨k, hb, hmid⟩ | ⟨k, hk, hmid⟩
  · obtain ⟨hop, ha⟩ := eq_of_symbol_append_eq hmid.symm
    exact .inl ⟨hop, hb, ha⟩
  · -- the second operator starts at the right space or behind it
    rcases Text.append_cons_eq_append_cons_of_not_mem op.space_not_mem_symbol hmid with
      ⟨hk, hr'⟩ | ⟨k', -, hr'⟩
    · exact .inr (.inl ⟨by rw [hb, hk], hr'.symm⟩)
    · refine absurd ⟨k', a, ?_⟩ (hr op')
      rw [hr', List.append_assoc, spaced_append]
  · -- the second operator ends at the left space or before it
    rcases Text.append_cons_eq_append_cons_of_not_mem op'.space_not_mem_symbol hmid with
      ⟨hk', ha⟩ | ⟨k', hk', -⟩
    · exact .inr (.inr ⟨by rw [hk, hk'], ha.symm⟩)
    · refine absurd ⟨b, k', ?_⟩ (hl op')
      rw [hk, hk', List.append_assoc, spaced_append]

/-- Between two sides that hold no operator and make none with the spaces in the middle, there is
no second operator. -/
theorem eq_of_append_spaced_eq {op op' : Operator} {l r b a : List Char}
    (hl : ∀ o : Operator, ¬ o.spaced <:+: l) (hr : ∀ o : Operator, ¬ o.spaced <:+: r)
    (hend : ∀ o : Operator, ¬ ' ' :: o.symbol.toList <:+ l)
    (hstart : ∀ o : Operator, ¬ o.symbol.toList ++ [' '] <+: r)
    (h : l ++ (op.spaced ++ r) = b ++ (op'.spaced ++ a)) : op' = op ∧ b = l ∧ a = r := by
  rcases eq_or_shared_of_append_spaced_eq hl hr h with hsame | ⟨-, hr'⟩ | ⟨hl', -⟩
  · exact hsame
  · exact absurd ⟨a, by rw [hr', List.append_assoc, List.singleton_append]⟩ (hstart op')
  · exact absurd ⟨b, hl'.symm⟩ (hend op')

end Operator

namespace Condition

/-! ## Well-formed conditions -/

/-- A text can stand on one side of an operator. -/
structure Side (cs : List Char) : Prop where
  ne_nil : cs ≠ []
  trimmed : Text.trim cs = cs
  noOperator : ∀ op : Operator, ¬ op.spaced <:+: cs

/-- The check of a side asks for exactly this. -/
theorem isSide_iff {cs : List Char} : isSide cs = true ↔ Side cs := by
  have hall : (Operator.all.all fun op => !Text.contains op.spaced cs) = true ↔
      ∀ op : Operator, ¬ op.spaced <:+: cs := by
    rw [List.all_eq_true]
    constructor
    · intro h op hin
      have hop := h op op.mem_all
      rw [Text.contains_iff.mpr hin] at hop
      exact absurd hop (by decide)
    · intro h op _
      rw [Bool.not_eq_true', ← Bool.not_eq_true, Text.contains_iff]
      exact h op
  unfold isSide
  rw [Bool.and_eq_true, Bool.and_eq_true, hall, beq_iff_eq, Bool.not_eq_true',
    List.isEmpty_eq_false_iff]
  constructor
  · intro ⟨⟨hne, htrim⟩, hop⟩
    exact ⟨hne, htrim, hop⟩
  · intro h
    exact ⟨⟨h.ne_nil, h.trimmed⟩, h.noOperator⟩

/-- A condition that can be written: each operand has a text that can stand on its side and that
writes its meaning, and an operator that asks for an order has neither alternatives nor a pattern
beside it. -/
structure WellFormed (c : Condition) : Prop where
  left : Side c.left.text.toList
  right : Side c.right.text.toList
  leftWritten : Meaning.Written c.left.text.toList c.left.meaning
  rightWritten : Meaning.Written c.right.text.toList c.right.meaning
  orderable : c.operator.isOrdering = true →
    c.left.meaning.isOrderable = true ∧ c.right.meaning.isOrderable = true

/-- An operand of a well-formed condition has the text that its meaning is written as. -/
theorem WellFormed.written {c : Condition} (h : c.WellFormed) {o : Operand}
    (ho : o ∈ [c.left, c.right]) : Meaning.Written o.text.toList o.meaning := by
  rw [List.mem_pair] at ho
  rcases ho with rfl | rfl
  · exact h.leftWritten
  · exact h.rightWritten

/-- The text of an unspaced operand can stand on a side. -/
theorem Side.of_unspaced {o : Operand} (h : o.Unspaced) : Side o.text.toList where
  ne_nil := h.ne_nil
  trimmed := h.trimmed
  noOperator := by
    intro op ⟨front, back, htext⟩
    have hspace := h.noSpace
    rw [← htext, List.append_assoc, Operator.spaced_append] at hspace
    exact hspace (List.mem_append_right front List.mem_cons_self)

/-- Two unspaced operands make a well-formed condition, as long as they are orderable where it
matters. -/
theorem WellFormed.of_unspaced {l r : Operand} {op : Operator} (hl : l.Unspaced) (hr : r.Unspaced)
    (h : op.isOrdering = true → l.meaning.isOrderable = true ∧ r.meaning.isOrderable = true) :
    WellFormed ⟨l, op, r⟩ where
  left := .of_unspaced hl
  right := .of_unspaced hr
  leftWritten := hl.written
  rightWritten := hr.written
  orderable := h

/-- The check of the operands is about operators that ask for an order only. -/
theorem isSorted_iff {c : Condition} : c.isSorted = true ↔ (c.operator.isOrdering = true →
    c.left.meaning.isOrderable = true ∧ c.right.meaning.isOrderable = true) := by
  unfold isSorted
  cases c.operator.isOrdering <;> simp

theorem text_eq (c : Condition) :
    c.text = c.left.text ++ " " ++ c.operator.symbol ++ " " ++ c.right.text := by
  rw [text, Operator.ofList_spaced, ← String.append_assoc, ← String.append_assoc]

theorem toList_text (c : Condition) : c.text.toList =
    c.left.text.toList ++ (c.operator.spaced ++ c.right.text.toList) := by
  simp only [text, String.toList_append, String.toList_ofList, List.append_assoc]

/-! ## The cut at the operator -/

/-- The operator that is found stands between the two sides. -/
theorem cut?_eq_some {cs l r : List Char} {op : Operator} (h : cut? cs = some (op, l, r)) :
    cs = l ++ (op.spaced ++ r) := by
  obtain ⟨op', -, hop⟩ := List.exists_of_findSome?_eq_some h
  obtain ⟨sides, hcut, heq⟩ := Option.map_eq_some_iff.mp hop
  simp only [Prod.mk.injEq] at heq
  obtain ⟨rfl, rfl⟩ := heq
  rw [Text.cut?_eq_some hcut, List.append_assoc]

/-- Some operator is found if there is one, although it may be another. -/
theorem exists_cut? {cs : List Char} {op : Operator} (h : op.spaced <:+: cs) :
    ∃ op' l r, cut? cs = some (op', l, r) := by
  cases hcut : cut? cs with
  | some found => exact ⟨found.1, found.2.1, found.2.2, rfl⟩
  | none =>
    have hop := List.findSome?_eq_none_iff.mp hcut op op.mem_all
    rw [Option.map_eq_none_iff, Text.cut?_eq_none_iff] at hop
    exact absurd h hop

/-! ## Reading and writing -/

/-- A condition is read if the cut leaves two sides, each side is an operand, and the operands suit
the operator. -/
theorem ofChars?_eq_some_iff {cs : List Char} {c : Condition} :
    ofChars? cs = some c ↔ ∃ l r, cut? cs = some (c.operator, l, r) ∧ Side l ∧ Side r ∧
      Operand.ofText? l = some c.left ∧ Operand.ofText? r = some c.right ∧
      c.isSorted = true := by
  unfold ofChars?
  simp only [Option.bind_eq_bind, Option.bind_eq_some_iff, Option.guard_eq_some', Prod.exists,
    Bool.and_eq_true, isSide_iff, Option.pure_def, Option.some.injEq]
  constructor
  · intro h
    obtain ⟨op, l, r, hcut, -, ⟨hl, hr⟩, left, hleft, right, hright, -, hsorted, rfl⟩ := h
    exact ⟨l, r, hcut, hl, hr, hleft, hright, hsorted⟩
  · intro h
    obtain ⟨l, r, hcut, hl, hr, hleft, hright, hsorted⟩ := h
    exact ⟨c.operator, l, r, hcut, (), ⟨hl, hr⟩, c.left, hleft, c.right, hright, (), hsorted, rfl⟩

/-- The condition read from a text is well formed, and its text is the one it was read from. -/
theorem wellFormed_of_ofText? {text : String} {c : Condition} (h : ofText? text = some c) :
    text = c.text ∧ c.WellFormed := by
  obtain ⟨l, r, hcut, hl, hr, hleft, hright, hsorted⟩ := ofChars?_eq_some_iff.mp h
  obtain ⟨hltext, hlwritten⟩ := Operand.ofText?_eq_some_iff.mp hleft
  obtain ⟨hrtext, hrwritten⟩ := Operand.ofText?_eq_some_iff.mp hright
  constructor
  · rw [← String.toList_inj, cut?_eq_some hcut, toList_text, hltext, hrtext,
      String.toList_ofList, String.toList_ofList]
  · rw [← String.toList_ofList (l := l), ← hltext] at hl hlwritten
    rw [← String.toList_ofList (l := r), ← hrtext] at hr hrwritten
    exact ⟨hl, hr, hlwritten, hrwritten, isSorted_iff.mp hsorted⟩

/-- A well-formed condition whose sides make no operator with the spaces in the middle is read back
from its text. -/
theorem ofText?_text {c : Condition} (h : c.WellFormed)
    (hend : ∀ op : Operator, ¬ ' ' :: op.symbol.toList <:+ c.left.text.toList)
    (hstart : ∀ op : Operator, ¬ op.symbol.toList ++ [' '] <+: c.right.text.toList) :
    ofText? c.text = some c := by
  have hin : c.operator.spaced <:+: c.text.toList :=
    ⟨c.left.text.toList, c.right.text.toList, by rw [toList_text, List.append_assoc]⟩
  obtain ⟨op, l, r, hcut⟩ := exists_cut? hin
  -- whichever occurrence the search has found, it is the one in the middle
  obtain ⟨rfl, rfl, rfl⟩ := Operator.eq_of_append_spaced_eq h.left.noOperator
    h.right.noOperator hend hstart (c.toList_text.symm.trans (cut?_eq_some hcut))
  refine ofChars?_eq_some_iff.mpr
    ⟨_, _, hcut, h.left, h.right, ?_, ?_, isSorted_iff.mpr h.orderable⟩
  · exact Operand.ofText?_eq_some_iff.mpr ⟨String.ofList_toList.symm, h.leftWritten⟩
  · exact Operand.ofText?_eq_some_iff.mpr ⟨String.ofList_toList.symm, h.rightWritten⟩

/-- Between two unspaced operands an operator is always found. -/
theorem ofText?_unspaced {l r : Operand} {op : Operator} (hl : l.Unspaced) (hr : r.Unspaced)
    (h : op.isOrdering = true → l.meaning.isOrderable = true ∧ r.meaning.isOrderable = true) :
    ofText? (text ⟨l, op, r⟩) = some ⟨l, op, r⟩ := by
  apply ofText?_text (.of_unspaced hl hr h)
  · intro op hsuffix
    exact hl.noSpace (hsuffix.subset List.mem_cons_self)
  · intro op hfront
    exact hr.noSpace (hfront.subset (List.mem_append_right _ List.mem_cons_self))

/-- Reading loses nothing and misses nothing: a text that is read is the text of a well-formed
condition, and the text of every well-formed condition is read as this condition, unless its left
side ends in a space and a symbol or its right side starts with a symbol and a space. -/
theorem ofText?_lossless_complete :
    (∀ (text : String) (c : Condition), ofText? text = some c →
      text = c.left.text ++ " " ++ c.operator.symbol ++ " " ++ c.right.text ∧ c.WellFormed) ∧
    (∀ c : Condition, c.WellFormed →
      (∀ op : Operator, ¬ ' ' :: op.symbol.toList <:+ c.left.text.toList) →
      (∀ op : Operator, ¬ op.symbol.toList ++ [' '] <+: c.right.text.toList) →
      ofText? (c.left.text ++ " " ++ c.operator.symbol ++ " " ++ c.right.text) = some c) := by
  constructor
  · intro text c h
    rw [← text_eq]
    exact wellFormed_of_ofText? h
  · intro c h hend hstart
    rw [← text_eq]
    exact ofText?_text h hend hstart

/-- A call with a path on the left, alternatives that look like operators on the right. -/
theorem ofText?_lossless_complete_any :
    ofText? "len([BODY].a[+1]) != any(<=, 2 >)" = some ⟨⟨"len([BODY].a[+1])",
      .length (.body [.key "a", .index 1])⟩, .ne, ⟨"any(<=, 2 >)", .anyOf ["<=", "2 >"]⟩⟩ ∧
    ofText? ("len([BODY].a[+1])" ++ " " ++ Operator.ne.symbol ++ " " ++ "any(<=, 2 >)") =
      some ⟨⟨"len([BODY].a[+1])", .length (.body [.key "a", .index 1])⟩, .ne,
        ⟨"any(<=, 2 >)", .anyOf ["<=", "2 >"]⟩⟩ := by
  have hread : ofText? "len([BODY].a[+1]) != any(<=, 2 >)" = some ⟨⟨"len([BODY].a[+1])",
      .length (.body [.key "a", .index 1])⟩, .ne, ⟨"any(<=, 2 >)", .anyOf ["<=", "2 >"]⟩⟩ := by
    decide +kernel
  have hwell := (ofText?_lossless_complete.1 _ _ hread).2
  have hend : ∀ op : Operator, ¬ ' ' :: op.symbol.toList <:+ "len([BODY].a[+1])".toList := by
    intro op
    cases op <;> decide
  have hstart : ∀ op : Operator, ¬ op.symbol.toList ++ [' '] <+: "any(<=, 2 >)".toList := by
    intro op
    cases op <;> decide
  have hback := ofText?_lossless_complete.2 _ hwell hend hstart
  exact ⟨hread, hback⟩

end Condition
end HealthRules
