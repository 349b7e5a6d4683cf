import Mathlib
import HealthRules.Proofs.Grammar.Token
import HealthRules.Proofs.Text.Occurrence

/-!
# Tokens and the paths in them

A path is read back from its text, and a token that is read is a name of a field or the token of
the body with the pieces of a path behind it (`Field.ofToken?_reads_back`).

The reader of a path can be seen as a loop that takes one step off the text in each round
(`BodyPath.segment?`). A round leaves less of the text, so the loop ends on every text.
-/

namespace HealthRules

/-- A step that has a text: a key is not empty and holds none of five characters, and an index has
64 bits. -/
def Step.Printable : Step → Prop
  | .key name => name ≠ "" ∧ ∀ c ∈ name.toList, c ∉ ['.', '[', ']', ' ', '\t']
  | .index n => n < 2 ^ 64

theorem BodyPath.isKeyChar_iff {c : Char} :
    isKeyChar c = true ↔ c ∉ ['.', '[', ']', ' ', '\t'] := by
  simp [isKeyChar, and_assoc]

/-! ## Printing -/

namespace Step

/-- A printed step is written as the grammar has it. -/
theorem written_printStep {step : Step} (h : step.Printable) :
    Written (BodyPath.printStep step) step := by
  cases step with
  | key name =>
    have hkey : Written ('.' :: name.toList) (.key (String.ofList name.toList)) :=
      .key (fun hnil => h.1 (String.toList_eq_nil_iff.mp hnil))
        fun c hc => BodyPath.isKeyChar_iff.mpr (h.2 c hc)
    rwa [String.ofList_toList] at hkey
  | index n =>
    have hrange : n ≤ Number.maxUnsigned64 := Nat.le_sub_one_of_lt h
    exact .index (.inl rfl) (Number.natural?_ofNat n) hrange

/-- A step that is written anyhow can be printed. -/
theorem Written.printable {cs : List Char} {step : Step} (h : Written cs step) :
    step.Printable := by
  cases h with
  | @key name hne hchars =>
    constructor
    · intro hempty
      exact hne (String.ofList_eq_empty_iff.mp hempty)
    · intro c hc
      rw [String.toList_ofList] at hc
      exact BodyPath.isKeyChar_iff.mp (hchars c hc)
  | index _ _ hrange => exact Nat.lt_of_le_sub_one (by decide) hrange

end Step

namespace BodyPath

theorem written_print {path : BodyPath} (h : ∀ step ∈ path, step.Printable) :
    Written path.print path := by
  induction path with
  | nil => exact .nil
  | cons step path ih =>
    rw [List.forall_mem_cons] at h
    exact .cons (Step.written_printStep h.1) (ih h.2)

/-- The text of a path is cut into the texts of its steps. -/
theorem written_iff {cs : List Char} {path : BodyPath} :
    Written cs path ↔ ∃ pieces : List (List Char), cs = pieces.flatten ∧
      List.Forall₂ Step.Written pieces path := by
  constructor
  · intro h
    induction h with
    | nil => exact ⟨[], rfl, .nil⟩
    | @cons piece _ _ _ hstep _ ih =>
      obtain ⟨pieces, rfl, hpieces⟩ := ih
      exact ⟨piece :: pieces, List.flatten_cons.symm, .cons hstep hpieces⟩
  · rintro ⟨pieces, rfl, hpieces⟩
    induction hpieces with
    | nil => exact .nil
    | cons hstep _ ih => exact .cons hstep ih

/-! ## Round by round -/

/-- Whether a key goes on with a character. -/
def goesOn (c : Char) : Bool :=
  c != '.' && c != '['

/-- One round: the step at the start of a text, and the text behind it. A key ends in front of the
next step, an index at its bracket. -/
def segment? : List Char → Option (Step × List Char)
  | '.' :: cs =>
    if cs.takeWhile goesOn ≠ [] ∧ (cs.takeWhile goesOn).all isKeyChar then
      some (.key (String.ofList (cs.takeWhile goesOn)), cs.dropWhile goesOn)
    else none
  | '[' :: cs =>
    (Text.cut? [']'] cs).bind fun (digits, rest) =>
      (Number.unsigned64? digits).map fun n => (.index n, rest)
  | _ => none

/-- Every segment takes some characters, so cutting them off comes to an end. -/
theorem length_lt_of_segment? {cs rest : List Char} {step : Step}
    (h : segment? cs = some (step, rest)) : rest.length < cs.length := by
  unfold segment? at h
  split at h
  · next cs =>
    split at h
    · simp only [Option.some.injEq, Prod.mk.injEq] at h
      obtain ⟨-, rfl⟩ := h
      exact Nat.lt_succ_of_le (List.dropWhile_suffix goesOn).length_le
    · cases h
  · obtain ⟨⟨digits, after⟩, hcut, h⟩ := Option.bind_eq_some_iff.mp h
    obtain ⟨n, -, h⟩ := Option.map_eq_some_iff.mp h
    simp only [Prod.mk.injEq] at h
    obtain ⟨-, rfl⟩ := h
    rw [Text.cut?_eq_some hcut]
    simp only [List.length_cons, List.length_append]
    omega
  · cases h

/-- A reader inside a key has the rest of the key in front of it, and the other steps. -/
theorem steps?_key (name cs : List Char) :
    steps? (.key name) cs =
      if name ++ cs.takeWhile goesOn ≠ [] ∧ (cs.takeWhile goesOn).all isKeyChar then
        (ofText? (cs.dropWhile goesOn)).map
          (.key (String.ofList (name ++ cs.takeWhile goesOn)) :: ·)
      else none := by
  -- the characters read so far go over into the name, which therefore has to vary
  induction cs generalizing name with
  | nil => simp [steps?, ofText?]
  | cons c cs ih =>
    by_cases hend : c = '.' ∨ c = '['
    · rcases hend with rfl | rfl <;> simp [steps?, goesOn, ofText?]
    · obtain ⟨hdot, hbracket⟩ := not_or.mp hend
      have hgoes : goesOn c = true := by simp [goesOn, hdot, hbracket]
      have hstep : steps? (.key name) (c :: cs) =
          if isKeyChar c then steps? (.key (name ++ [c])) cs else none := by
        simp only [steps?]
      rw [hstep, List.takeWhile_cons, List.dropWhile_cons, if_pos hgoes, if_pos hgoes, ih]
      by_cases hc : isKeyChar c = true <;> simp [hc]

/-- A reader inside an index has the digits up to the bracket in front of it, and the other
steps. -/
theorem steps?_index (digits cs : List Char) :
    steps? (.index digits) cs = (Text.cut? [']'] cs).bind fun (more, rest) =>
      (Number.unsigned64? (digits ++ more)).bind fun n => (ofText? rest).map (.index n :: ·) := by
  induction cs generalizing digits with
  | nil => rfl
  | cons c cs ih =>
    by_cases hc : c = ']'
    · subst hc
      have hcut : Text.cut? [']'] (']' :: cs) = some ([], cs) := Text.cut?_append_self [']'] cs
      rw [hcut, Option.bind_some, steps?]
      dsimp only
      rw [List.append_nil]
      rfl
    · have hp : ¬ [']'] <+: c :: cs := by
        rw [List.cons_prefix_cons]
        exact fun h => hc h.1.symm
      have hstep : steps? (.index digits) (c :: cs) = steps? (.index (digits ++ [c])) cs := by
        simp only [steps?]
      rw [hstep, ih, Text.cut?_cons hp, Option.bind_map]
      simp only [Function.comp_def, List.append_assoc, List.singleton_append]

/-- Reading a path is taking one step off after the other until nothing is left. -/
theorem ofText?_eq_rounds (cs : List Char) :
    ofText? cs = if cs = [] then some [] else
      (segment? cs).bind fun round => (ofText? round.2).map (round.1 :: ·) := by
  cases cs with
  | nil => rfl
  | cons c cs =>
    rw [if_neg (List.cons_ne_nil c cs), ofText?]
    -- a segment begins with a point or a bracket, and anything else is refused by both
    by_cases hdot : c = '.'
    · subst hdot
      rw [steps?, steps?_key, List.nil_append, segment?]
      split <;> rfl
    · by_cases hbracket : c = '['
      · subst hbracket
        rw [steps?, steps?_index, segment?, Option.bind_assoc]
        refine congrArg _ (funext fun read => ?_)
        dsimp only
        rw [List.nil_append, Option.bind_map]
        rfl
      · have hnone : segment? (c :: cs) = none := by
          unfold segment?
          split
          · next h => exact absurd (List.cons.inj h).1 hdot
          · next h => exact absurd (List.cons.inj h).1 hbracket
          · rfl
        rw [hnone]
        simp only [steps?, Option.bind_none]

end BodyPath

/-! ## Tokens -/

namespace Field

theorem written_iff {token : List Char} {f : Field} :
    Written token f ↔ (∃ name, (name, f) ∈ named ∧ token = name.toList) ∨
      ∃ (path : BodyPath) (pieces : List (List Char)), f = .body path ∧
        token = bodyToken.toList ++ pieces.flatten ∧ List.Forall₂ Step.Written pieces path := by
  constructor
  · intro h
    cases h with
    | @named name f hmem => exact .inl ⟨name, hmem, rfl⟩
    | @body cs path hpath =>
      obtain ⟨pieces, rfl, hpieces⟩ := BodyPath.written_iff.mp hpath
      exact .inr ⟨path, pieces, rfl, rfl, hpieces⟩
  · rintro (⟨name, hmem, rfl⟩ | ⟨path, pieces, rfl, rfl, hpieces⟩)
    · exact .named hmem
    · exact .body (BodyPath.written_iff.mpr ⟨pieces, rfl, hpieces⟩)

/-- A path is read back from its text behind the token of the body. A token is read exactly if it
is one of the seven names or the token of the body and the pieces of a path, and all others are
refused; a key in a piece is printable and its index stands behind an optional plus. The loop that
takes the pieces off ends. -/
theorem ofToken?_reads_back :
    (∀ path : BodyPath, (∀ step ∈ path, step.Printable) →
      ofToken? (bodyToken.toList ++ path.print) = some (.body path)) ∧
    (∀ (token : List Char) (f : Field), ofToken? token = some f ↔
      (∃ name, (name, f) ∈ named ∧ token = name.toList) ∨
      ∃ (path : BodyPath) (pieces : List (List Char)), f = .body path ∧
        token = bodyToken.toList ++ pieces.flatten ∧ List.Forall₂ Step.Written pieces path) ∧
    (∀ (piece : List Char) (step : Step), Step.Written piece step → step.Printable) ∧
    (∀ cs : List Char, BodyPath.ofText? cs = if cs = [] then some [] else
      (BodyPath.segment? cs).bind fun round =>
        (BodyPath.ofText? round.2).map (round.1 :: ·)) ∧
    ∀ (cs rest : List Char) (step : Step),
      BodyPath.segment? cs = some (step, rest) → rest.length < cs.length := by
  refine ⟨?_, ?_, ?_, BodyPath.ofText?_eq_rounds, ?_⟩
  · intro path hpath
    rw [ofToken?_body, BodyPath.ofText?_eq_some_iff.mpr (BodyPath.written_print hpath)]
    rfl
  · intro token f
    rw [ofToken?_eq_some_iff, written_iff]
  · intro piece step h
    exact h.printable
  · intro cs rest step h
    exact BodyPath.length_lt_of_segment? h

/-- A path with the greatest index, and a step with a plus and zeros in front of its index. -/
theorem ofToken?_reads_back_greatest_index :
    ofToken? "[BODY].a:b[18446744073709551615].c".toList =
      some (.body [.key "a:b", .index 18446744073709551615, .key "c"]) ∧
    Step.Printable (.index 7) ∧ ".x".toList.length < "[+07].x".toList.length := by
  have hpath : ∀ step ∈ [Step.key "a:b", .index 18446744073709551615, .key "c"],
      step.Printable := by
    simp [Step.Printable]
  have htext : bodyToken.toList ++
      BodyPath.print [.key "a:b", .index 18446744073709551615, .key "c"] =
        "[BODY].a:b[18446744073709551615].c".toList := by
    decide +kernel
  have hread := ofToken?_reads_back.1 _ hpath
  rw [htext] at hread
  have hvalue : Number.natural? ['0', '7'] = some 7 := by
    decide
  have hrange : 7 ≤ Number.maxUnsigned64 := by
    decide +kernel
  have hwritten : Step.Written ('[' :: (['+'] ++ ['0', '7']) ++ [']']) (.index 7) :=
    .index (.inr rfl) hvalue hrange
  have hround : BodyPath.segment? "[+07].x".toList = some (.index 7, ".x".toList) := by
    decide +kernel
  exact ⟨hread, ofToken?_reads_back.2.2.1 _ _ hwritten,
    ofToken?_reads_back.2.2.2.2 _ _ _ hround⟩

end Field
end HealthRules
