import Mathlib
import HealthRules.Proofs.Grammar.Reading
import HealthRules.Rule

/-!
# Calls that are not closed

A text that begins as a call of a known name, such as `len(`, is that call if its last character
closes it, and then it needs an argument of the right form (`Meaning.callName?_of_closed`). Without
the closing parenthesis at its end it is no call at all but a literal, whatever follows the opening
one (`Meaning.written_unclosed`). So `Condition.ofText?_calls` has two halves: which operands of an
accepted condition are calls, and that a call which is not closed is accepted in place of any
operand.
-/

namespace HealthRules

namespace Meaning

/-- The name of the call that a meaning is written as, if it is written as one. -/
def callName? : Meaning → Option String
  | length _ => some "len"
  | presence _ => some "has"
  | anyOf _ => some "any"
  | pattern _ => some "pat"
  | field _ | literal _ => none

/-- A text begins as a call of a known name. -/
structure BeginsCall (name : String) (cs : List Char) : Prop where
  known : name ∈ callNames
  text : name.toList ++ ['('] <+: cs

variable {name : String} {cs : List Char} {m : Meaning}

theorem getLast?_callText (name : String) (argument : List Char) :
    (callText name argument).getLast? = some ')' := by
  rw [callText, ← List.cons_append, ← List.append_assoc, List.getLast?_concat]

/-- A text with a parenthesis at either end of the argument is a call. -/
theorem BeginsCall.eq_callText (h : BeginsCall name cs) (hclosed : cs.getLast? = some ')') :
    ∃ argument, cs = callText name argument := by
  obtain ⟨rest, rfl⟩ := h.text
  rcases List.eq_nil_or_concat rest with rfl | ⟨argument, last, rfl⟩
  · -- the opening parenthesis does not close the call itself
    rw [List.append_nil, List.getLast?_concat] at hclosed
    exact absurd (Option.some.inj hclosed) (by decide)
  · rw [List.concat_eq_append, ← List.append_assoc, List.getLast?_concat, Option.some.injEq]
      at hclosed
    refine ⟨argument, ?_⟩
    rw [callText, hclosed, List.concat_eq_append, List.append_assoc, List.singleton_append]

/-- A closed call stands for itself or for nothing. -/
theorem callName?_of_closed (h : BeginsCall name cs) (hclosed : cs.getLast? = some ')')
    (hm : Written cs m) : m.callName? = some name := by
  obtain ⟨argument, rfl⟩ := h.eq_callText hclosed
  have hread := ofText?_eq_some_iff.mpr hm
  have hname := h.known
  simp only [callNames, List.mem_cons, List.not_mem_nil, or_false] at hname
  rcases hname with rfl | rfl | rfl | rfl
  · rw [ofText?_len, Option.map_eq_some_iff] at hread
    obtain ⟨f, -, rfl⟩ := hread
    rfl
  · rw [ofText?_has, Option.map_eq_some_iff] at hread
    obtain ⟨f, -, rfl⟩ := hread
    rfl
  · rw [ofText?_any, Option.map_eq_some_iff] at hread
    obtain ⟨options, -, rfl⟩ := hread
    rfl
  · rw [ofText?_pat, Option.ite_none_left_eq_some, Option.some.injEq] at hread
    obtain ⟨-, rfl⟩ := hread
    rfl

/-- A call that is not closed stands for its text. -/
theorem written_unclosed (h : BeginsCall name cs) (hopen : cs.getLast? ≠ some ')') :
    Written cs (.literal (String.ofList cs)) := by
  apply Written.literal
  case noToken =>
    obtain ⟨rest, rfl⟩ := h.text
    rw [List.append_assoc]
    exact head?_append_of_mem_callNames h.known _
  case noCall =>
    rintro n - argument rfl
    exact hopen (getLast?_callText n argument)

theorem eq_literal_of_unclosed (h : BeginsCall name cs) (hopen : cs.getLast? ≠ some ')')
    (hm : Written cs m) : m = .literal (String.ofList cs) := by
  have hread := ofText?_eq_some_iff.mpr hm
  rw [ofText?_eq_some_iff.mpr (written_unclosed h hopen)] at hread
  exact (Option.some.inj hread).symm

end Meaning

namespace Condition

open Meaning (BeginsCall)
open Operator (Begins Ends)

/-- A call does not begin with an operator. -/
theorem not_begins_of_beginsCall {name : String} {cs : List Char} (h : BeginsCall name cs) :
    ¬ Begins cs := by
  have hnames : ∀ n ∈ Meaning.callNames, ∀ op ∈ Operator.all,
      n.toList ≠ [] ∧ n.toList.head? ≠ op.symbol.toList.head? := by
    decide
  rintro ⟨op, hop⟩
  obtain ⟨rest, hcall⟩ := h.text
  obtain ⟨rest', hrest⟩ := hop
  obtain ⟨hne, hhead⟩ := hnames name h.known op op.mem_all
  rw [← hcall, List.append_assoc, List.append_assoc] at hrest
  have hfirst := congrArg List.head? hrest
  rw [List.head?_append_of_ne_nil _ op.symbol_ne_nil, List.head?_append_of_ne_nil _ hne] at hfirst
  exact hhead hfirst.symm

/-- A call that is not closed takes the place of an operand of a well-formed condition. -/
theorem WellFormed.unclosed {c : Condition} (h : c.WellFormed) {name : String} {cs : List Char}
    (hcall : BeginsCall name cs) (hopen : cs.getLast? ≠ some ')') (hside : Side cs) :
    let o : Operand := ⟨String.ofList cs, .literal (String.ofList cs)⟩
    WellFormed { c with left := o } ∧ WellFormed { c with right := o } := by
  intro o
  have htext : o.text.toList = cs := String.toList_ofList
  have hwritten : Meaning.Written o.text.toList o.meaning := by
    rw [htext]
    exact Meaning.written_unclosed hcall hopen
  rw [← htext] at hside
  constructor
  · exact ⟨hside, h.right, hwritten, h.rightWritten, fun hop => ⟨rfl, (h.orderable hop).2⟩⟩
  · exact ⟨h.left, hside, h.leftWritten, hwritten, fun hop => ⟨(h.orderable hop).1, rfl⟩⟩

/-- An operand of an accepted condition that begins as a call is this call exactly if its last
character closes it, and is a literal otherwise. And a call that is not closed, on either side of
any condition in place of its operand, makes a condition that is accepted, unless its own end makes
an operator with the space behind it. -/
theorem ofText?_calls (c : Condition) :
    (∀ text : String, ofText? text = some c →
      ∀ o ∈ [c.left, c.right], ∀ name, BeginsCall name o.text.toList →
        (o.meaning.callName? = some name ↔ o.text.toList.getLast? = some ')') ∧
        (o.meaning = .literal o.text ↔ o.text.toList.getLast? ≠ some ')')) ∧
    (c.WellFormed → ∀ name cs, BeginsCall name cs → cs.getLast? ≠ some ')' →
      Side cs →
        let o : Operand := ⟨String.ofList cs, .literal (String.ofList cs)⟩
        (¬ Ends cs → ¬ Begins c.right.text.toList →
          ofText? (text { c with left := o }) = some { c with left := o }) ∧
        (¬ Ends c.left.text.toList →
          ofText? (text { c with right := o }) = some { c with right := o })) := by
  constructor
  · intro text h o ho name hcall
    have hwritten := (wellFormed_of_ofText? h).2.written ho
    have hclosed : o.text.toList.getLast? = some ')' → o.meaning.callName? = some name :=
      fun hlast => Meaning.callName?_of_closed hcall hlast hwritten
    have hopen : o.text.toList.getLast? ≠ some ')' → o.meaning = .literal o.text := by
      intro hlast
      rw [Meaning.eq_literal_of_unclosed hcall hlast hwritten, String.ofList_toList]
    -- a literal has no name, so only one of the two can be
    refine ⟨⟨?_, hclosed⟩, ?_, hopen⟩
    · intro hname
      by_contra hlast
      rw [hopen hlast] at hname
      cases hname
    · intro hliteral hlast
      have hname := hclosed hlast
      rw [hliteral] at hname
      cases hname
  · -- an unclosed call in place of an operand is read as a literal on either side
    intro hc name cs hcall hopen hside o
    obtain ⟨hleft, hright⟩ := hc.unclosed hcall hopen hside
    have htext : (String.ofList cs).toList = cs := String.toList_ofList
    constructor
    · intro hends hbegins
      apply ofText?_text hleft
      · intro op hop
        rw [htext] at hop
        exact hends ⟨op, hop⟩
      · exact fun op hop => hbegins ⟨op, hop⟩
    · intro hends
      apply ofText?_text hright
      · exact fun op hop => hends ⟨op, hop⟩
      · intro op hop
        rw [htext] at hop
        exact not_begins_of_beginsCall hcall ⟨op, hop⟩

/-- A call with a text behind its closing parenthesis on the left, a closed one on the right. -/
theorem ofText?_calls_text_behind :
    let c : Condition := ⟨⟨"any(a, b) c", .literal "any(a, b) c"⟩, .eq,
      ⟨"len([BODY])", .length (.body [])⟩⟩
    ofText? "any(a, b) c == len([BODY])" = some c ∧ c.left.meaning = .literal c.left.text ∧
      c.right.meaning.callName? = some "len" ∧
      ofText? "any(a, b) c == pat(*" = some { c with right := ⟨"pat(*", .literal "pat(*"⟩ } := by
  intro c
  have hread : ofText? "any(a, b) c == len([BODY])" = some c := by
    decide +kernel
  have hany : BeginsCall "any" c.left.text.toList := ⟨by decide, by decide⟩
  have hlen : BeginsCall "len" c.right.text.toList := ⟨by decide, by decide⟩
  have hpat : BeginsCall "pat" "pat(*".toList := ⟨by decide, by decide⟩
  have hside : isSide "pat(*".toList = true := by
    decide +kernel
  have hends : ¬ Ends c.left.text.toList := by
    rintro ⟨op, hop⟩
    revert hop
    cases op <;> decide
  obtain ⟨hcalls, hunclosed⟩ := ofText?_calls c
  obtain ⟨-, hleft⟩ := hcalls _ hread c.left List.mem_cons_self "any" hany
  obtain ⟨hright, -⟩ := hcalls _ hread c.right (List.mem_cons_of_mem _ List.mem_cons_self) "len"
    hlen
  obtain ⟨-, hplace⟩ := hunclosed (wellFormed_of_ofText? hread).2 "pat" _ hpat (by decide)
    (isSide_iff.mp hside)
  have hplaced := hplace hends
  have htext : text { c with right := ⟨"pat(*", .literal "pat(*"⟩ } = "any(a, b) c == pat(*" := by
    decide +kernel
  rw [String.ofList_toList, htext] at hplaced
  exact ⟨hread, hleft.mpr (by decide), hright.mpr (by decide), hplaced⟩

/-- A length whose call is never closed is accepted, and is compared as the text that it is. -/
theorem ofText?_length_unclosed :
    ofText? "len([BODY].users == 100" = some ⟨⟨"len([BODY].users", .literal "len([BODY].users"⟩,
      .eq, ⟨"100", .literal "100"⟩⟩ ∧
    Rule.check ⟨"len([BODY].users == 100"⟩ = .ok () := by
  have hread : ofText? "len([BODY].users == 100" = some ⟨⟨"len([BODY].users",
      .literal "len([BODY].users"⟩, .eq, ⟨"100", .literal "100"⟩⟩ := by
    decide +kernel
  have hcheck : Rule.check ⟨"len([BODY].users == 100"⟩ = .ok () := by
    decide +kernel
  exact ⟨hread, hcheck⟩

end Condition
end HealthRules
