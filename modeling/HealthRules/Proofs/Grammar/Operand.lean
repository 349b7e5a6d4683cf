import HealthRules.Operand
import HealthRules.Proofs.Grammar.Token
import HealthRules.Proofs.Text.Occurrence

/-!
# The grammar of operands

`Meaning.Written` says which text an operand of each meaning has: a call `name(argument)` of one
of four names, the token of a field, or any other text that starts with no bracket. The reader
accepts exactly these texts and reads what they write (`Meaning.ofText?_eq_some_iff`).
-/

namespace HealthRules

namespace Meaning

/-! ## Texts of operands -/

/-- The names that a call can have. -/
def callNames : List String := ["len", "has", "any", "pat"]

/-- The text of a call. -/
def callText (name : String) (argument : List Char) : List Char :=
  name.toList ++ '(' :: (argument ++ [')'])

/-- A text writes a meaning. Alternatives stand between commas, and each has something besides
white space around it. -/
inductive Written : List Char → Meaning → Prop where
  | length {token : List Char} {f : Field} (written : Field.Written token f) :
      Written (callText "len" token) (.length f)
  | presence {token : List Char} {f : Field} (written : Field.Written token f) :
      Written (callText "has" token) (.presence f)
  | anyOf {parts : List (List Char)} (ne : parts ≠ []) (apart : ∀ part ∈ parts, ',' ∉ part)
      (filled : ∀ part ∈ parts, Text.trim part ≠ []) :
      Written (callText "any" ([','].intercalate parts))
        (.anyOf (parts.map fun part => String.ofList (Text.trim part)))
  | pattern {glob : List Char} (ne : glob ≠ []) :
      Written (callText "pat" glob) (.pattern (String.ofList glob))
  | field {token : List Char} {f : Field} (written : Field.Written token f) :
      Written token (.field f)
  | literal {cs : List Char} (noToken : cs.head? ≠ some '[')
      (noCall : ∀ name ∈ callNames, ∀ argument, cs ≠ callText name argument) :
      Written cs (.literal (String.ofList cs))

/-! ## Calls -/

/-- A call is split at its first opening parenthesis, and a closing one has to be its last
character. -/
theorem call?_eq_some_iff {cs name argument : List Char} :
    call? cs = some (name, argument) ↔ cs = name ++ '(' :: (argument ++ [')']) ∧ '(' ∉ name := by
  unfold call?
  constructor
  · intro h
    obtain ⟨⟨front, rest⟩, hcut, h⟩ := Option.bind_eq_some_iff.mp h
    obtain ⟨arg, hrest, heq⟩ := Option.map_eq_some_iff.mp h
    rw [Prod.mk.injEq] at heq
    obtain ⟨rfl, rfl⟩ := heq
    obtain ⟨rfl, hmem⟩ := Text.cut?_singleton_eq_some_iff.mp hcut
    rw [Text.before?_eq_some_iff.mp hrest]
    exact ⟨rfl, hmem⟩
  · intro h
    obtain ⟨rfl, hmem⟩ := h
    have hclose : Text.before? ')' (argument ++ [')']) = some argument :=
      Text.before?_eq_some_iff.mpr rfl
    rw [Text.cut?_singleton_eq_some_iff.mpr ⟨rfl, hmem⟩, Option.bind_some]
    dsimp only
    rw [hclose, Option.map_some]

/-- Whatever the argument is, a call of one of the four names is split behind this name. -/
theorem call?_callText {name : String} (h : name ∈ callNames) (argument : List Char) :
    call? (callText name argument) = some (name.toList, argument) := by
  have hopen : ∀ n ∈ callNames, '(' ∉ n.toList := by
    decide
  exact call?_eq_some_iff.mpr ⟨rfl, hopen name h⟩

theorem toList_call (name argument : String) :
    (name ++ "(" ++ argument ++ ")").toList = callText name argument.toList := by
  rw [String.toList_append, String.toList_append, String.toList_append, callText,
    List.append_assoc, List.append_assoc]
  rfl

theorem call_ne_nil (name : String) (argument : List Char) : callText name argument ≠ [] :=
  List.append_ne_nil_of_right_ne_nil _ (List.cons_ne_nil _ _)

/-- A call has no white space at its ends. -/
theorem trim_call {name : String} (h : name ∈ callNames) (argument : List Char) :
    Text.trim (callText name argument) = callText name argument := by
  have hnames : ∀ n ∈ callNames, n.toList.head?.isSome = true ∧
      n.toList.head?.all (fun c => !Text.isBlank c) = true := by
    decide +kernel
  obtain ⟨hsome, hblank⟩ := hnames name h
  rw [Text.trim_eq_self_iff]
  constructor
  · rw [callText, List.head?_append, Option.or_of_isSome hsome]
    intro c hc
    have hfirst := (Option.all_eq_true _ _).mp hblank c hc
    rwa [Bool.not_eq_true'] at hfirst
  · rw [callText, ← List.cons_append, ← List.append_assoc, List.getLast?_concat]
    intro c hc
    rw [← Option.mem_some.mp hc]
    decide

theorem space_not_mem_call {name : String} (h : name ∈ callNames) {argument : List Char}
    (hargument : ' ' ∉ argument) : ' ' ∉ callText name argument := by
  have hnames : ∀ n ∈ callNames, ' ' ∉ n.toList := by
    decide
  rw [callText, List.mem_append, List.mem_cons, List.mem_append, not_or, not_or, not_or]
  exact ⟨hnames name h, by decide, hargument, by decide⟩

/-- What `len` is called with is the token of a field. -/
theorem ofText?_len (argument : List Char) :
    ofText? (callText "len" argument) = (Field.ofToken? argument).map length := by
  rw [ofText?, call?_callText (by decide)]
  simp only [if_true]

theorem ofText?_has (argument : List Char) :
    ofText? (callText "has" argument) = (Field.ofToken? argument).map presence := by
  have hlen : "has".toList ≠ "len".toList := by decide
  rw [ofText?, call?_callText (by decide)]
  simp only [if_neg hlen, if_true]

/-- What `any` is called with is a list of alternatives. -/
theorem ofText?_any (argument : List Char) :
    ofText? (callText "any" argument) = (options? argument).map anyOf := by
  have hlen : "any".toList ≠ "len".toList := by decide
  have hhas : "any".toList ≠ "has".toList := by decide
  rw [ofText?, call?_callText (by decide)]
  simp only [if_neg hlen, if_neg hhas, if_true]

/-- What `pat` is called with is a pattern, which is taken as it stands but may not be empty. -/
theorem ofText?_pat (argument : List Char) :
    ofText? (callText "pat" argument) =
      if argument = [] then none else some (pattern (String.ofList argument)) := by
  have hlen : "pat".toList ≠ "len".toList := by decide
  have hhas : "pat".toList ≠ "has".toList := by decide
  have hany : "pat".toList ≠ "any".toList := by decide
  rw [ofText?, call?_callText (by decide)]
  simp only [if_neg hlen, if_neg hhas, if_neg hany, if_true]

/-- A text that is no call of a known name is a token or a literal. -/
theorem ofText?_of_noCall {cs : List Char}
    (h : ∀ name ∈ callNames, ∀ argument, cs ≠ callText name argument) :
    ofText? cs = plain? cs := by
  unfold ofText?
  split
  · next name argument hcall =>
    -- a call whose name is none of the four
    obtain ⟨hcs, -⟩ := call?_eq_some_iff.mp hcall
    have hne : ∀ n ∈ callNames, name ≠ n.toList := by
      intro n hn hname
      rw [hname] at hcs
      exact h n hn argument hcs
    rw [if_neg (hne "len" (by decide)), if_neg (hne "has" (by decide)),
      if_neg (hne "any" (by decide)), if_neg (hne "pat" (by decide))]
  · rfl

/-! ## Alternatives -/

/-- The separator is in none of the parts. -/
theorem not_mem_of_mem_splitOn {sep : Char} {cs part : List Char} (h : part ∈ cs.splitOn sep) :
    sep ∉ part := by
  induction cs generalizing part with
  | nil =>
    rw [List.splitOn_nil, List.mem_singleton] at h
    rw [h]
    exact List.not_mem_nil
  | cons c cs ih =>
    rw [List.splitOn_cons_eq_if_modifyHead] at h
    split at h
    · rcases List.mem_cons.mp h with rfl | h
      · exact List.not_mem_nil
      · exact ih h
    · next hc =>
      -- a character that does not separate joins the first of the parts behind it
      rw [beq_iff_eq] at hc
      obtain ⟨first, others, hsplit⟩ := List.exists_cons_of_ne_nil (List.splitOn_ne_nil sep cs)
      rw [hsplit, List.modifyHead_cons] at h
      rcases List.mem_cons.mp h with rfl | h
      · rw [List.mem_cons, not_or]
        exact ⟨fun hsep => hc hsep.symm, ih (hsplit ▸ List.mem_cons_self)⟩
      · exact ih (hsplit ▸ List.mem_cons_of_mem first h)

/-- Alternatives are the trimmed parts between commas, and a list with an empty one is refused. -/
theorem options?_eq_some_iff {argument : List Char} {options : List String} :
    options? argument = some options ↔
      ∃ parts : List (List Char), parts ≠ [] ∧ (∀ part ∈ parts, ',' ∉ part) ∧
        (∀ part ∈ parts, Text.trim part ≠ []) ∧ argument = [','].intercalate parts ∧
        options = parts.map fun part => String.ofList (Text.trim part) := by
  have hfilled : ∀ parts : List (List Char),
      ¬ ((parts.map Text.trim).any List.isEmpty = true) ↔ ∀ part ∈ parts, Text.trim part ≠ [] := by
    intro parts
    simp
  unfold options?
  constructor
  · intro h
    dsimp only at h
    split at h
    · exact absurd h (by simp)
    · next hany =>
      rw [Option.some.injEq, List.map_map] at h
      exact ⟨argument.splitOn ',', List.splitOn_ne_nil ',' argument,
        fun part hpart => not_mem_of_mem_splitOn hpart, (hfilled _).mp hany,
        (List.intercalate_splitOn ',').symm, h.symm⟩
  · intro h
    obtain ⟨parts, hne, hapart, htrim, rfl, rfl⟩ := h
    dsimp only
    rw [List.splitOn_intercalate ',' hapart hne, if_neg ((hfilled parts).mpr htrim), List.map_map]
    rfl

/-! ## The reader accepts the grammar -/

/-- What is no call is a token if it starts with a bracket, and stands for itself otherwise. -/
theorem plain?_eq_some {cs : List Char} {m : Meaning} (h : plain? cs = some m)
    (hcall : ∀ name ∈ callNames, ∀ argument, cs ≠ callText name argument) : Written cs m := by
  unfold plain? at h
  split at h
  · obtain ⟨f, hf, rfl⟩ := Option.map_eq_some_iff.mp h
    exact .field (Field.ofToken?_eq_some_iff.mp hf)
  · next hhead =>
    rw [Option.some.injEq] at h
    rw [← h]
    exact .literal hhead hcall

/-- The reader accepts nothing but what the grammar has: each of the four calls, or no call at all.
-/
theorem written_of_ofText? {cs : List Char} {m : Meaning} (h : ofText? cs = some m) :
    Written cs m := by
  by_cases hcall : ∃ name ∈ callNames, ∃ argument, cs = callText name argument
  · obtain ⟨name, hname, argument, rfl⟩ := hcall
    simp only [callNames, List.mem_cons, List.not_mem_nil, or_false] at hname
    rcases hname with rfl | rfl | rfl | rfl
    · rw [ofText?_len, Option.map_eq_some_iff] at h
      obtain ⟨f, hf, rfl⟩ := h
      exact .length (Field.ofToken?_eq_some_iff.mp hf)
    · rw [ofText?_has, Option.map_eq_some_iff] at h
      obtain ⟨f, hf, rfl⟩ := h
      exact .presence (Field.ofToken?_eq_some_iff.mp hf)
    · rw [ofText?_any, Option.map_eq_some_iff] at h
      obtain ⟨options, hoptions, rfl⟩ := h
      obtain ⟨parts, hne, hapart, hfilled, rfl, rfl⟩ := options?_eq_some_iff.mp hoptions
      exact .anyOf hne hapart hfilled
    · rw [ofText?_pat] at h
      split at h
      · exact absurd h (by simp)
      · next hne =>
        rw [Option.some.injEq] at h
        rw [← h]
        exact .pattern hne
  · have hno : ∀ name ∈ callNames, ∀ argument, cs ≠ callText name argument :=
      fun name hname argument heq => hcall ⟨name, hname, argument, heq⟩
    rw [ofText?_of_noCall hno] at h
    exact plain?_eq_some h hno

theorem head?_append_of_mem_callNames {name : String} (h : name ∈ callNames) (rest : List Char) :
    (name.toList ++ rest).head? ≠ some '[' := by
  simp only [callNames, List.mem_cons, List.not_mem_nil, or_false] at h
  rcases h with rfl | rfl | rfl | rfl <;> simp

/-- A text that starts with an opening bracket is no call. -/
theorem ne_callText_of_head {cs : List Char} (h : cs.head? = some '[') :
    ∀ name ∈ callNames, ∀ argument, cs ≠ callText name argument := by
  intro name hname argument heq
  rw [heq] at h
  exact head?_append_of_mem_callNames hname _ h

/-- The reader accepts all that the grammar has, by cases on how the text is written. -/
theorem ofText?_of_written {cs : List Char} {m : Meaning} (h : Written cs m) :
    ofText? cs = some m := by
  cases h with
  | length hf => rw [ofText?_len, Field.ofToken?_eq_some_iff.mpr hf, Option.map_some]
  | presence hf => rw [ofText?_has, Field.ofToken?_eq_some_iff.mpr hf, Option.map_some]
  | anyOf hne hapart hfilled =>
    rw [ofText?_any, options?_eq_some_iff.mpr ⟨_, hne, hapart, hfilled, rfl, rfl⟩, Option.map_some]
  | pattern hne => rw [ofText?_pat, if_neg hne]
  | field hf =>
    rw [ofText?_of_noCall (ne_callText_of_head hf.head), plain?, if_pos hf.head,
      Field.ofToken?_eq_some_iff.mpr hf, Option.map_some]
  | literal hhead hcall => rw [ofText?_of_noCall hcall, plain?, if_neg hhead]

/-- The reader and the grammar agree on texts and on what they mean. -/
theorem ofText?_eq_some_iff {cs : List Char} {m : Meaning} :
    ofText? cs = some m ↔ Written cs m :=
  ⟨written_of_ofText?, ofText?_of_written⟩

/-! ## The field of an operand -/

/-- The field that an operand of this meaning reads. -/
def field? : Meaning → Option Field
  | field f | length f | presence f => some f
  | anyOf _ | pattern _ | literal _ => none

theorem isRead_iff {m : Meaning} : m.isRead = true ↔ ∃ f, m.field? = some f := by
  cases m <;> simp [isRead, field?]

/-- An operand that reads a field is the token of this field, or `len` or `has` of it. -/
theorem Written.exists_token {cs : List Char} {m : Meaning} {f : Field} (h : Written cs m)
    (hf : m.field? = some f) :
    ∃ token, Field.Written token f ∧
      (cs = token ∨ cs = callText "len" token ∨ cs = callText "has" token) := by
  cases h with
  | @length token g hw =>
    have hg : g = f := Option.some.inj hf
    rw [← hg]
    exact ⟨token, hw, .inr (.inl rfl)⟩
  | @presence token g hw =>
    have hg : g = f := Option.some.inj hf
    rw [← hg]
    exact ⟨token, hw, .inr (.inr rfl)⟩
  | @field _ g hw =>
    have hg : g = f := Option.some.inj hf
    rw [← hg]
    exact ⟨cs, hw, .inl rfl⟩
  | anyOf _ _ _ | pattern _ | literal _ _ => exact absurd hf (by simp [field?])

/-- There is at least one alternative. -/
theorem Written.options_ne_nil {cs : List Char} {options : List String}
    (h : Written cs (.anyOf options)) : options ≠ [] := by
  cases h with
  | anyOf ne _ _ => exact fun hnil => ne (List.map_eq_nil_iff.mp hnil)

/-- A text without brackets stands for itself. -/
theorem written_literal {cs : List Char} (hbracket : '[' ∉ cs) (hopen : '(' ∉ cs) :
    Written cs (.literal (String.ofList cs)) := by
  refine .literal ?_ ?_
  · intro hhead
    exact hbracket (List.mem_of_mem_head? hhead)
  · intro name _ argument hcall
    rw [hcall, callText] at hopen
    exact hopen (List.mem_append_right _ List.mem_cons_self)

end Meaning

namespace Operand

/-- An operand keeps the text that it was read from, and means what this text writes. -/
theorem ofText?_eq_some_iff {cs : List Char} {o : Operand} :
    ofText? cs = some o ↔ o.text = String.ofList cs ∧ Meaning.Written cs o.meaning := by
  rw [ofText?, Option.map_eq_some_iff, ← Meaning.ofText?_eq_some_iff]
  constructor
  · intro h
    obtain ⟨meaning, hm, rfl⟩ := h
    exact ⟨rfl, hm⟩
  · intro h
    refine ⟨o.meaning, h.2, ?_⟩
    rw [← h.1]

/-- An operand can stand on either side of an operator and is told apart from it: its text has no
space, and no other white space at its ends. -/
structure Unspaced (o : Operand) : Prop where
  ne_nil : o.text.toList ≠ []
  trimmed : Text.trim o.text.toList = o.text.toList
  noSpace : ' ' ∉ o.text.toList
  written : Meaning.Written o.text.toList o.meaning

/-- A field with a token of its own. -/
theorem unspaced_named {token : String} {f : Field} (h : (token, f) ∈ Field.named) :
    Unspaced ⟨token, .field f⟩ := by
  have hnames : ∀ entry ∈ Field.named, entry.1.toList ≠ [] ∧
      Text.trim entry.1.toList = entry.1.toList := by
    decide
  have hwritten : Field.Written token.toList f := .named h
  exact ⟨(hnames _ h).1, (hnames _ h).2, hwritten.space_not_mem, .field hwritten⟩

/-- A literal without blanks, brackets and parentheses can stand beside an operator. -/
theorem unspaced_literal {cs : List Char} (hne : cs ≠ [])
    (h : ∀ c ∈ cs, Text.isBlank c = false ∧ c ≠ '[' ∧ c ≠ '(') :
    Unspaced ⟨String.ofList cs, .literal (String.ofList cs)⟩ := by
  have htext : (String.ofList cs).toList = cs := String.toList_ofList
  constructor
  case ne_nil => rwa [htext]
  case trimmed =>
    rw [htext, Text.trim_eq_self_iff]
    exact ⟨fun c hc => (h c (List.mem_of_mem_head? hc)).1,
      fun c hc => (h c (List.mem_of_mem_getLast? hc)).1⟩
  case noSpace =>
    rw [htext]
    intro hmem
    exact absurd (h ' ' hmem).1 (by decide)
  case written =>
    rw [htext]
    exact Meaning.written_literal (fun hmem => (h '[' hmem).2.1 rfl)
      (fun hmem => (h '(' hmem).2.2 rfl)

end Operand
end HealthRules
